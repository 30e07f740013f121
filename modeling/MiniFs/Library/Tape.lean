import MiniFs.Library.Exec

/-! # Programs that consume a tape of outcomes

Part of the state is a tape on which the environment has written how the next
operations turn out. `Spends` says how many good outcomes a program uses up: on
any tape that begins with as many, it does what it does when all are good, and
leaves the rest of the tape.
-/

namespace MiniFs.Library.Exec

/-- How to put in a tape, and what a good outcome is. -/
structure Tape (σ φ : Type) where
  set : (ℕ → φ) → σ → σ
  good : φ

variable {σ φ α β : Type} {T : Tape σ φ}

/-- The first `n` outcomes are good. -/
def Tape.Clear (T : Tape σ φ) (n : ℕ) (f : ℕ → φ) : Prop := ∀ k < n, f k = T.good

def skip (n : ℕ) (f : ℕ → φ) : ℕ → φ := fun k => f (n + k)

@[simp] theorem skip_zero (f : ℕ → φ) : skip 0 f = f := by
  funext k
  rw [skip, Nat.zero_add]

@[simp] theorem skip_skip (m n : ℕ) (f : ℕ → φ) : skip n (skip m f) = skip (m + n) f := by
  funext k
  rw [skip, skip, skip, Nat.add_assoc]

theorem Tape.Clear.left {m n : ℕ} {f : ℕ → φ} (h : T.Clear (m + n) f) : T.Clear m f :=
  fun k hk => h k (Nat.lt_add_right n hk)

theorem Tape.Clear.right {m n : ℕ} {f : ℕ → φ} (h : T.Clear (m + n) f) : T.Clear n (skip m f) :=
  fun k hk => h (m + k) (Nat.add_lt_add_left hk m)

theorem Tape.Clear.mono {m n : ℕ} {f : ℕ → φ} (h : T.Clear n f) (hmn : m ≤ n) : T.Clear m f :=
  fun k hk => h k (Nat.lt_of_lt_of_le hk hmn)

/-- If the program returns from `s`, where all outcomes are good, its last state satisfies `I`, and
it uses up a number of outcomes that fits its answer. -/
def Spends (T : Tape σ φ) (I : σ → Prop) (m : Prog σ α) (s : σ) (C : α → ℕ → Prop) : Prop :=
  ∀ a s', m s = some (a, s') → I s' ∧ ∃ n, C a n ∧
    ∀ f, T.Clear n f → m (T.set f s) = some (a, T.set (skip n f) s')

/-- Whatever the answer, at most `k` outcomes. -/
def AtMost (k : ℕ) : α → ℕ → Prop := fun _ n => n ≤ k

def Exactly (k : ℕ) : α → ℕ → Prop := fun _ n => n = k

namespace Spends
variable {I : σ → Prop} {m : Prog σ α} {s : σ} {C : α → ℕ → Prop}

theorem weaken {C' : α → ℕ → Prop} (h : Spends T I m s C) (hC : ∀ a n, C a n → C' a n) :
    Spends T I m s C' := by
  intro a s' hrun
  obtain ⟨hI, n, hn, hf⟩ := h a s' hrun
  exact ⟨hI, n, hC a n hn, hf⟩

theorem atMost {k l : ℕ} (h : Spends T I m s (Exactly k)) (hkl : k ≤ l) :
    Spends T I m s (AtMost l) :=
  h.weaken fun _ _ hn => Nat.le_trans (Nat.le_of_eq hn) hkl

theorem mono {k l : ℕ} (h : Spends T I m s (AtMost k)) (hkl : k ≤ l) : Spends T I m s (AtMost l) :=
  h.weaken fun _ _ hn => Nat.le_trans hn hkl

theorem pure {a : α} (hI : I s) (hC : C a 0) : Spends T I (pure a) s C := by
  intro b s' hrun
  obtain ⟨rfl, rfl⟩ := returned_inj hrun
  exact ⟨hI, 0, hC, fun f _ => by rw [skip_zero]; rfl⟩

theorem stuck : Spends T I (Exec.stuck : Prog σ α) s C := fun _ _ hrun => nomatch hrun

theorem bind {k : α → Prog σ β} {D : β → ℕ → Prop} (hm : Spends T I m s C)
    (hk : ∀ a n s', C a n → I s' → m s = some (a, s') →
      Spends T I (k a) s' fun b n' => D b (n + n')) : Spends T I (m >>= k) s D := by
  intro b s2 hrun
  obtain ⟨a, s1, ha, hb⟩ := bind_inv hrun
  obtain ⟨hI1, n, hn, hf⟩ := hm a s1 ha
  obtain ⟨hI2, n', hn', hf'⟩ := hk a n s1 hn hI1 ha b s2 hb
  refine ⟨hI2, n + n', hn', fun f hclear => ?_⟩
  rw [bind_apply, hf f hclear.left, Option.bind_some, hf' _ hclear.right, skip_skip]

theorem bind_exactly {k : α → Prog σ β} {j l : ℕ} (hm : Spends T I m s (Exactly j))
    (hk : ∀ a s', I s' → m s = some (a, s') → Spends T I (k a) s' (Exactly l)) :
    Spends T I (m >>= k) s (Exactly (j + l)) :=
  hm.bind fun a n s' hn hI ha => (hk a s' hI ha).weaken fun b n' hn' => by
    rw [Exactly] at *
    omega

theorem bind_atMost {k : α → Prog σ β} {j l : ℕ} (hm : Spends T I m s (AtMost j))
    (hk : ∀ a s', I s' → m s = some (a, s') → Spends T I (k a) s' (AtMost l)) :
    Spends T I (m >>= k) s (AtMost (j + l)) :=
  hm.bind fun a n s' hn hI ha => (hk a s' hI ha).weaken fun b n' hn' => by
    rw [AtMost] at *
    omega

/-! Steps that use up nothing -/

theorem bind_free {k : α → Prog σ β} {D : β → ℕ → Prop} (hm : Spends T I m s (Exactly 0))
    (hk : ∀ a s', I s' → m s = some (a, s') → Spends T I (k a) s' D) :
    Spends T I (m >>= k) s D :=
  hm.bind fun a n s' hn hI ha => (hk a s' hI ha).weaken fun b n' hn' => by
    obtain rfl : n = 0 := hn
    rwa [Nat.zero_add]

theorem ask_bind {f : σ → α} {k : α → Prog σ β} {D : β → ℕ → Prop}
    (hset : ∀ t, f (T.set t s) = f s) (hk : Spends T I (k (f s)) s D) :
    Spends T I (ask f >>= k) s D := by
  intro b s' hrun
  obtain ⟨hI, n, hn, hf⟩ := hk b s' hrun
  refine ⟨hI, n, hn, fun t ht => ?_⟩
  rw [bind_apply, ask_apply, Option.bind_some, hset]
  exact hf t ht

theorem update_bind {f : σ → σ} {k : Unit → Prog σ β} {D : β → ℕ → Prop}
    (hset : ∀ t, f (T.set t s) = T.set t (f s)) (hk : Spends T I (k ()) (f s) D) :
    Spends T I (update f >>= k) s D := by
  intro b s' hrun
  obtain ⟨hI, n, hn, hf⟩ := hk b s' hrun
  refine ⟨hI, n, hn, fun t ht => ?_⟩
  rw [bind_apply, update_apply, Option.bind_some, hset]
  exact hf t ht

theorem require_bind {p : Prop} [Decidable p] {k : Unit → Prog σ β} {D : β → ℕ → Prop}
    (hk : p → Spends T I (k ()) s D) : Spends T I (require p >>= k) s D := by
  intro b s' hrun
  by_cases hp : p
  · obtain ⟨hI, n, hn, hf⟩ := hk hp b s' (by rwa [require_pos hp] at hrun)
    refine ⟨hI, n, hn, fun t ht => ?_⟩
    rw [require_pos hp]
    exact hf t ht
  · rw [require_neg hp] at hrun
    exact nomatch hrun

/-! Loops -/

/-- Every pass of the loop uses up `b` outcomes at most. -/
theorem forLoop {body : ℕ → Prog σ Unit} {count start b : ℕ} (hI : I s)
    (h : ∀ i s, start ≤ i → i < start + count → I s → Spends T I (body i) s (AtMost b)) :
    Spends T I (forLoop body count start) s (AtMost (count * b)) := by
  induction count generalizing start s with
  | zero => exact Spends.pure hI (Nat.zero_le _)
  | succ count ih =>
    rw [Nat.succ_mul, Nat.add_comm (count * b)]
    exact (h start s (Nat.le_refl _) (by omega) hI).bind_atMost fun _ s' hI' _ =>
      ih hI' fun i s hi hlt => h i s (by omega) (by omega)

/-- Only the pass that ends the search uses up outcomes. -/
theorem search {body : ℕ → Prog σ (Option β)} {count start b : ℕ} (hI : I s)
    (h : ∀ i s, I s → Spends T I (body i) s fun r n => n ≤ if r.isSome then b else 0) :
    Spends T I (search body count start) s fun r n => n ≤ if r.isSome then b else 0 := by
  induction count generalizing start s with
  | zero => exact Spends.pure hI (Nat.zero_le _)
  | succ count ih =>
    refine (h start s hI).bind fun r n s' hn hI' _ => ?_
    cases r with
    | none =>
      obtain rfl := Nat.le_zero.mp hn
      exact (ih hI').weaken fun r n' hn' => by rwa [Nat.zero_add]
    | some x => exact Spends.pure hI' hn

end Spends

end MiniFs.Library.Exec

import MiniFs.Library.Exec

/-! # Total-correctness triples

`Total P m Q` says that the program returns from every state with `P`, and what
holds of its answer and its last state. There is a rule for each way a program is
built, and one for a list of commands.
-/

namespace MiniFs.Library.Exec

variable {σ α β κ : Type} {P R : σ → Prop} {Q : α → σ → Prop}

/-- From a state with `P` the program returns, and the answer and the last state satisfy `Q`. -/
def Total (P : σ → Prop) (m : Prog σ α) (Q : α → σ → Prop) : Prop :=
  ∀ s, P s → ∃ a s', m s = some (a, s') ∧ Q a s'

namespace Total

theorem pure {a : α} (h : ∀ s, P s → Q a s) : Total P (pure a) Q :=
  fun s hs => ⟨a, s, rfl, h s hs⟩

theorem bind {m : Prog σ β} {f : β → Prog σ α} {I : β → σ → Prop} (hm : Total P m I)
    (hf : ∀ b, Total (I b) (f b) Q) : Total P (m >>= f) Q := by
  intro s hs
  obtain ⟨b, s1, hb, hI⟩ := hm s hs
  obtain ⟨a, s2, ha, hQ⟩ := hf b s1 hI
  refine ⟨a, s2, ?_, hQ⟩
  rw [bind_apply, hb]
  exact ha

/-- Between two programs, what is known of the first answer may be forgotten. -/
theorem seq {m : Prog σ β} {f : β → Prog σ α} (hm : Total P m fun _ => R)
    (hf : ∀ b, Total R (f b) Q) : Total P (m >>= f) Q :=
  hm.bind hf

theorem ask {f : σ → α} (h : ∀ s, P s → Q (f s) s) : Total P (ask f) Q :=
  fun s hs => ⟨f s, s, rfl, h s hs⟩

theorem ask_bind {f : σ → β} {b : β} {k : β → Prog σ α} (hf : ∀ s, P s → f s = b)
    (hk : Total P (k b) Q) : Total P (Exec.ask f >>= k) Q := by
  intro s hs
  rw [bind_apply, ask_apply, Option.bind_some, hf s hs]
  exact hk s hs

theorem update {f : σ → σ} {Q : Unit → σ → Prop} (h : ∀ s, P s → Q () (f s)) :
    Total P (update f) Q :=
  fun s hs => ⟨(), f s, rfl, h s hs⟩

theorem require_bind {p : Prop} [Decidable p] {k : Unit → Prog σ α} (hp : ∀ s, P s → p)
    (hk : Total P (k ()) Q) : Total P (Exec.require p >>= k) Q := by
  intro s hs
  rw [require_pos (hp s hs)]
  exact hk s hs

/-- What holds of every state with `P` may be used to show the triple. -/
theorem fact {p : Prop} {m : Prog σ α} (hp : ∀ s, P s → p) (h : p → Total P m Q) : Total P m Q :=
  fun s hs => h (hp s hs) s hs

theorem ex {γ : Type} {S : γ → σ → Prop} {m : Prog σ α} (h : ∀ x, Total (S x) m Q) :
    Total (fun s => ∃ x, S x s) m Q :=
  fun s ⟨x, hs⟩ => h x s hs

theorem conseq {m : Prog σ α} {Q' : α → σ → Prop} (h : Total P m Q) (hP : ∀ s, R s → P s)
    (hQ : ∀ a s, Q a s → Q' a s) : Total R m Q' := by
  intro s hs
  obtain ⟨a, s', hrun, hq⟩ := h s (hP s hs)
  exact ⟨a, s', hrun, hQ a s' hq⟩

theorem weaken {m : Prog σ α} {Q' : α → σ → Prop} (h : Total P m Q)
    (hQ : ∀ a s, Q a s → Q' a s) : Total P m Q' :=
  h.conseq (fun _ hs => hs) hQ

/-- Every pass of the loop keeps the invariant. -/
theorem forLoop {body : ℕ → Prog σ Unit} {count start : ℕ}
    (h : ∀ i, start ≤ i → i < start + count → Total P (body i) fun _ => P) :
    Total P (Exec.forLoop body count start) fun _ => P := by
  induction count generalizing start with
  | zero => exact Total.pure fun _ hs => hs
  | succ count ih =>
    exact (h start (Nat.le_refl _) (by omega)).seq fun _ =>
      ih fun i hi hlt => h i (by omega) (by omega)

/-- A pass that returns nothing keeps the invariant; one that returns ends the loop. -/
theorem search {body : ℕ → Prog σ (Option β)} {count start : ℕ} {Q : Option β → σ → Prop}
    (h : ∀ i, start ≤ i → i < start + count → Total P (body i) fun r s =>
      r.elim (P s) fun b => Q (some b) s) (hnone : ∀ s, P s → Q none s) :
    Total P (Exec.search body count start) Q := by
  induction count generalizing start with
  | zero => exact Total.pure hnone
  | succ count ih =>
    refine (h start (Nat.le_refl _) (by omega)).bind fun r => ?_
    cases r with
    | none => exact ih fun i hi hlt => h i (by omega) (by omega)
    | some b => exact Total.pure fun _ hs => hs

/-- A list of commands each of which keeps the invariant from the states it is good for. -/
theorem list {prog : κ → Prog σ α} {p : σ → κ → Prop} {cs : List κ}
    (h : ∀ c ∈ cs, Total (fun s => P s ∧ p s c) (prog c) fun _ => P) {s : σ} (hs : P s)
    (hgood : Always prog p s cs) : ∃ as s', runList prog cs s = some (as, s') ∧ P s' := by
  induction cs generalizing s with
  | nil => exact ⟨[], s, rfl, hs⟩
  | cons c cs ih =>
    obtain ⟨hc, hrest⟩ := hgood
    obtain ⟨a, s1, ha, hs1⟩ := h c List.mem_cons_self s ⟨hs, hc⟩
    obtain ⟨as, s2, has, hs2⟩ :=
      ih (fun d hd => h d (List.mem_cons_of_mem _ hd)) hs1 (hrest a s1 ha)
    refine ⟨a :: as, s2, ?_, hs2⟩
    rw [runList, bind_apply, ha, Option.bind_some, bind_apply, has]
    rfl

end Total

theorem always_of_forall {prog : κ → Prog σ α} {p : σ → κ → Prop} {cs : List κ}
    (h : ∀ c ∈ cs, ∀ s, p s c) (s : σ) : Always prog p s cs := by
  induction cs generalizing s with
  | nil => trivial
  | cons c cs ih =>
    exact ⟨h c List.mem_cons_self s, fun _ t _ =>
      ih (fun d hd => h d (List.mem_cons_of_mem _ hd)) t⟩

end MiniFs.Library.Exec

import Mathlib.Data.Nat.Basic

/-! # Stateful programs that may get stuck, seen through an abstraction

A program reads and changes a concrete state and either returns or is stuck
(undefined behaviour, a trap). An abstraction relates concrete states to
abstract ones, and concrete states that differ only in what the abstraction
forgets. `Runs` says that a program started anywhere above one abstract state
returns one answer, ends above one abstract state, leaves its environment
alone, and treats states that differ only in forgotten parts alike.
-/

namespace MiniFs.Library.Exec

variable {σ τ ε α β κ : Type}

abbrev Prog (σ α : Type) := StateT σ Option α

def ask (f : σ → α) : Prog σ α := fun s => some (f s, s)

def update (f : σ → σ) : Prog σ Unit := fun s => some ((), f s)

/-- No behaviour is defined. -/
def stuck : Prog σ α := fun _ => none

/-- Go on only if `p`; otherwise nothing is defined. -/
def require (p : Prop) [Decidable p] : Prog σ Unit := if p then pure () else stuck

/-- `for (i = start; i < start + count; i++) body(i)`. -/
def forLoop (body : ℕ → Prog σ Unit) : (count start : ℕ) → Prog σ Unit
  | 0, _ => pure ()
  | count + 1, i => do
    body i
    forLoop body count (i + 1)

/-- The same loop, left with the first result a body returns. -/
def search (body : ℕ → Prog σ (Option β)) : (count start : ℕ) → Prog σ (Option β)
  | 0, _ => pure none
  | count + 1, i => do
    match ← body i with
    | some b => pure (some b)
    | none => search body count (i + 1)

def runList (step : κ → Prog σ α) : List κ → Prog σ (List α)
  | [] => pure []
  | c :: cs => do
    let a ← step c
    let as ← runList step cs
    pure (a :: as)

@[simp] theorem pure_apply (a : α) (s : σ) : (pure a : Prog σ α) s = some (a, s) := rfl

@[simp] theorem bind_apply (m : Prog σ α) (f : α → Prog σ β) (s : σ) :
    (m >>= f) s = (m s).bind fun p => f p.1 p.2 := rfl

@[simp] theorem ask_apply (f : σ → α) (s : σ) : ask f s = some (f s, s) := rfl

@[simp] theorem update_apply (f : σ → σ) (s : σ) : update f s = some ((), f s) := rfl

/-! ## What a program that has returned says -/

theorem returned_inj {a a' : α} {s s' : σ} (h : some (a, s) = some (a', s')) : a = a' ∧ s = s' :=
  Prod.mk.inj (Option.some.inj h)

theorem run_unique {o : Option (α × σ)} {a a' : α} {s s' : σ} (h : o = some (a, s))
    (h' : o = some (a', s')) : a = a' ∧ s = s' :=
  returned_inj (h.symm.trans h')

theorem bind_inv {m : Prog σ α} {f : α → Prog σ β} {b : β} {s s' : σ}
    (h : (m >>= f) s = some (b, s')) : ∃ a t, m s = some (a, t) ∧ f a t = some (b, s') := by
  obtain ⟨⟨a, t⟩, hm, hf⟩ := Option.bind_eq_some_iff.mp h
  exact ⟨a, t, hm, hf⟩

/-- A run evaluated: the program returns, and its answer and last state pass the test. -/
theorem exists_of_any {m : Prog σ α} {s : σ} {p : α × σ → Bool} (h : (m s).any p = true) :
    ∃ a s', m s = some (a, s') ∧ p (a, s') = true := by
  cases hm : m s with
  | none =>
    rw [hm] at h
    exact absurd h Bool.false_ne_true
  | some r =>
    rw [hm] at h
    exact ⟨r.1, r.2, rfl, h⟩

theorem require_pos {p : Prop} [Decidable p] (h : p) : (require p : Prog σ Unit) = pure () :=
  if_pos h

theorem require_neg {p : Prop} [Decidable p] (h : ¬p) : (require p : Prog σ Unit) = stuck :=
  if_neg h

/-- A loop follows a chain of states. -/
theorem forLoop_chain {body : ℕ → Prog σ Unit} {count start : ℕ} (chain : ℕ → σ)
    (h : ∀ i, start ≤ i → i < start + count → body i (chain i) = some ((), chain (i + 1))) :
    forLoop body count start (chain start) = some ((), chain (start + count)) := by
  induction count generalizing start with
  | zero => rfl
  | succ count ih =>
    have htail : forLoop body count (start + 1) (chain (start + 1)) =
        some ((), chain (start + 1 + count)) := ih fun i hi hlt => h i (by omega) (by omega)
    rw [Nat.add_right_comm] at htail
    rw [forLoop, bind_apply, h start (Nat.le_refl _) (by omega), Option.bind_some]
    exact htail

/-- The same for a search whose bodies return nothing. -/
theorem search_chain {body : ℕ → Prog σ (Option β)} {count start : ℕ} (chain : ℕ → σ)
    (h : ∀ i, start ≤ i → i < start + count → body i (chain i) = some (none, chain (i + 1))) :
    search body count start (chain start) = some (none, chain (start + count)) := by
  induction count generalizing start with
  | zero => rfl
  | succ count ih =>
    have htail : search body count (start + 1) (chain (start + 1)) =
        some (none, chain (start + 1 + count)) := ih fun i hi hlt => h i (by omega) (by omega)
    rw [Nat.add_right_comm] at htail
    rw [search, bind_apply, h start (Nat.le_refl _) (by omega), Option.bind_some]
    exact htail

/-- A search that is left at index `k` with what `m` returns. -/
theorem search_chain_hit {body : ℕ → Prog σ (Option β)} {count start k : ℕ} (chain : ℕ → σ)
    (hk : start ≤ k) (hlt : k < start + count)
    (h : ∀ i, start ≤ i → i < k → body i (chain i) = some (none, chain (i + 1))) {m : Prog σ β}
    {s : σ} (hat : body k (chain k) = (m >>= fun b => pure (some b)) s) :
    search body count start (chain start) = (m >>= fun b => pure (some b)) s := by
  induction count generalizing start with
  | zero => omega
  | succ count ih =>
    by_cases hks : k = start
    · subst hks
      rw [search, bind_apply, hat, bind_apply, Option.bind_assoc]
      rfl
    · rw [search, bind_apply, h start (Nat.le_refl _) (by omega), Option.bind_some]
      exact ih (by omega) (by omega) fun i hi hik => h i (by omega) hik

/-- A search that is left at index `k`. -/
theorem search_chain_some {body : ℕ → Prog σ (Option β)} {count start k : ℕ} (chain : ℕ → σ)
    (hk : start ≤ k) (hlt : k < start + count)
    (h : ∀ i, start ≤ i → i < k → body i (chain i) = some (none, chain (i + 1))) {b : β} {s' : σ}
    (hat : body k (chain k) = some (some b, s')) :
    search body count start (chain start) = some (some b, s') :=
  search_chain_hit (m := pure b) chain hk hlt h hat

/-- What of a concrete state an abstract state shows, which concrete states differ only
in the rest, and the part no program changes. -/
structure Abstraction (σ τ ε : Type) where
  rep : σ → τ → Prop
  same : σ → σ → Prop
  env : σ → ε

variable {A : Abstraction σ τ ε}

/-- From every state above `v` the program returns `a` and ends above `v'`; states
that agree up to forgotten parts still do at the end. -/
def Runs (A : Abstraction σ τ ε) (v : τ) (m : Prog σ α) (a : α) (v' : τ) : Prop :=
  ∃ next : σ → σ, ∀ s, A.rep s v → m s = some (a, next s) ∧ A.rep (next s) v' ∧
    A.env (next s) = A.env s ∧ ∀ t, A.rep t v → A.same s t → A.same (next s) (next t)

namespace Runs

theorem pure (v : τ) (a : α) : Runs A v (pure a : Prog σ α) a v :=
  ⟨id, fun _ hs => ⟨rfl, hs, rfl, fun _ _ h => h⟩⟩

theorem bind {v v1 v2 : τ} {m : Prog σ α} {f : α → Prog σ β} {a : α} {b : β}
    (hm : Runs A v m a v1) (hf : Runs A v1 (f a) b v2) : Runs A v (m >>= f) b v2 := by
  obtain ⟨g, hg⟩ := hm
  obtain ⟨k, hk⟩ := hf
  refine ⟨k ∘ g, fun s hs => ?_⟩
  obtain ⟨h1, h2, h3, h4⟩ := hg s hs
  obtain ⟨k1, k2, k3, k4⟩ := hk (g s) h2
  refine ⟨?_, k2, k3.trans h3, fun t ht hst => ?_⟩
  · rw [bind_apply, h1]
    exact k1
  · exact k4 (g t) (hg t ht).2.1 (h4 t ht hst)

/-- A read that the abstract state determines. -/
theorem ask {v : τ} {f : σ → α} {a : α} (h : ∀ s, A.rep s v → f s = a) :
    Runs A v (Exec.ask f) a v :=
  ⟨id, fun s hs => ⟨by rw [ask_apply, h s hs]; rfl, hs, rfl, fun _ _ h => h⟩⟩

/-- A program that only reads, and whose answer the abstract state determines. -/
theorem read {v : τ} {m : Prog σ α} {a : α} (h : ∀ s, A.rep s v → m s = some (a, s)) :
    Runs A v m a v :=
  ⟨id, fun s hs => ⟨h s hs, hs, rfl, fun _ _ h => h⟩⟩

theorem update {v v' : τ} {f : σ → σ} (hrep : ∀ s, A.rep s v → A.rep (f s) v')
    (henv : ∀ s, A.env (f s) = A.env s) (hsame : ∀ s t, A.same s t → A.same (f s) (f t)) :
    Runs A v (Exec.update f) () v' :=
  ⟨f, fun s hs => ⟨rfl, hrep s hs, henv s, fun t _ h => hsame s t h⟩⟩

theorem require {v : τ} {p : Prop} [Decidable p] (h : p) :
    Runs A v (Exec.require p : Prog σ Unit) () v := by
  rw [require_pos h]
  exact Runs.pure v ()

/-- One pass of the body per index, along a chain of abstract states. -/
theorem forLoop {body : ℕ → Prog σ Unit} {count start : ℕ} (chain : ℕ → τ)
    (h : ∀ i, start ≤ i → i < start + count → Runs A (chain i) (body i) () (chain (i + 1))) :
    Runs A (chain start) (Exec.forLoop body count start) () (chain (start + count)) := by
  induction count generalizing start with
  | zero => exact Runs.pure _ ()
  | succ count ih =>
    have htail : Runs A (chain (start + 1)) (Exec.forLoop body count (start + 1)) ()
        (chain (start + 1 + count)) := ih fun i hi hlt => h i (by omega) (by omega)
    rw [Nat.add_right_comm] at htail
    exact (h start (Nat.le_refl _) (by omega)).bind htail

/-- No body of the loop returns. -/
theorem search_none {body : ℕ → Prog σ (Option β)} {count start : ℕ} {v : τ}
    (h : ∀ i, start ≤ i → i < start + count → Runs A v (body i) none v) :
    Runs A v (search body count start) none v := by
  induction count generalizing start with
  | zero => exact Runs.pure _ none
  | succ count ih =>
    exact (h start (Nat.le_refl _) (by omega)).bind (ih (fun i hi hlt => h i (by omega) (by omega)))

/-- The loop is left at the first index whose body returns. -/
theorem search_some {body : ℕ → Prog σ (Option β)} {count start k : ℕ} {v v' : τ} {b : β}
    (hk : start ≤ k) (hlt : k < start + count)
    (hbefore : ∀ i, start ≤ i → i < k → Runs A v (body i) none v)
    (hat : Runs A v (body k) (some b) v') :
    Runs A v (search body count start) (some b) v' := by
  induction count generalizing start with
  | zero => omega
  | succ count ih =>
    by_cases hks : k = start
    · subst hks
      exact hat.bind (Runs.pure _ _)
    · exact (hbefore start (Nat.le_refl _) (by omega)).bind
        (ih (by omega) (by omega) (fun i hi hik => hbefore i (by omega) hik))

theorem exec {v v' : τ} {m : Prog σ α} {a : α} (h : Runs A v m a v') {s : σ} (hs : A.rep s v) :
    ∃ s', m s = some (a, s') ∧ A.rep s' v' := by
  obtain ⟨g, hg⟩ := h
  exact ⟨g s, (hg s hs).1, (hg s hs).2.1⟩

/-- States above one abstract state that agree up to forgotten parts get the same
answer and agree afterwards. -/
theorem exec_same {v v' : τ} {m : Prog σ α} {a : α} (h : Runs A v m a v') {s t : σ}
    (hs : A.rep s v) (ht : A.rep t v) (hst : A.same s t) :
    ∃ s' t', m s = some (a, s') ∧ m t = some (a, t') ∧ A.rep s' v' ∧ A.rep t' v' ∧
      A.env s' = A.env s ∧ A.env t' = A.env t ∧ A.same s' t' := by
  obtain ⟨g, hg⟩ := h
  obtain ⟨s1, s2, s3, s4⟩ := hg s hs
  obtain ⟨t1, t2, t3, -⟩ := hg t ht
  exact ⟨g s, g t, s1, t1, s2, t2, s3, t3, s4 t ht hst⟩

end Runs

/-! ## Sequences of commands -/

/-- A sequence of abstract steps with the commands taken and the answers given. -/
inductive Trace (step : κ → τ → α → τ → Prop) : τ → List κ → List α → τ → Prop
  | nil (v : τ) : Trace step v [] [] v
  | cons {c : κ} {cs : List κ} {a : α} {as : List α} {v v1 v2 : τ} :
      step c v a v1 → Trace step v1 cs as v2 → Trace step v (c :: cs) (a :: as) v2

variable {step : κ → τ → α → τ → Prop}

theorem runList_cons {prog : κ → Prog σ α} {c : κ} {cs : List κ} {s s' : σ} {as : List α}
    (h : runList prog (c :: cs) s = some (as, s')) : ∃ a bs s1, as = a :: bs ∧
      prog c s = some (a, s1) ∧ runList prog cs s1 = some (bs, s') := by
  rw [runList] at h
  obtain ⟨a, s1, hfirst, h⟩ := bind_inv h
  obtain ⟨bs, s2, hrest, h⟩ := bind_inv h
  obtain ⟨rfl, rfl⟩ := returned_inj h
  exact ⟨a, bs, s1, rfl, hfirst, hrest⟩

theorem runList_append {prog : κ → Prog σ α} {cs ds : List κ} {s s' : σ} {as : List α}
    (h : runList prog (cs ++ ds) s = some (as, s')) : ∃ bs es s1, bs.length = cs.length ∧
      as = bs ++ es ∧ runList prog cs s = some (bs, s1) ∧ runList prog ds s1 = some (es, s') := by
  induction cs generalizing s as with
  | nil => exact ⟨[], as, s, rfl, rfl, rfl, h⟩
  | cons c cs ih =>
    obtain ⟨a, as1, s1, rfl, hfirst, hrest⟩ := runList_cons h
    obtain ⟨bs, es, s3, hlen, rfl, hcs, hds⟩ := ih hrest
    refine ⟨a :: bs, es, s3, congrArg (· + 1) hlen, rfl, ?_, hds⟩
    rw [runList, bind_apply, hfirst, Option.bind_some, bind_apply, hcs]
    rfl

/-- If every command runs as an abstract step from a state with the invariant, a
list of commands runs as a sequence of steps. -/
theorem Runs.list {prog : κ → Prog σ α} {inv : τ → Prop} {p : κ → Prop}
    (hrun : ∀ c v, p c → inv v → ∃ a v', Runs A v (prog c) a v' ∧ step c v a v' ∧ inv v')
    (cs : List κ) (hok : ∀ c ∈ cs, p c) {v : τ} (hv : inv v) :
    ∃ as v', Runs A v (runList prog cs) as v' ∧ Trace step v cs as v' ∧ inv v' := by
  induction cs generalizing v with
  | nil => exact ⟨[], v, Runs.pure v [], .nil v, hv⟩
  | cons c cs ih =>
    obtain ⟨a, v1, h1, hs, hv1⟩ := hrun c v (hok c List.mem_cons_self) hv
    obtain ⟨as, v2, h2, ht, hv2⟩ := ih (fun d hd => hok d (List.mem_cons_of_mem _ hd)) hv1
    exact ⟨a :: as, v2, h1.bind (h2.bind (Runs.pure _ _)), .cons hs ht, hv2⟩

/-- Every command of a run meets a state it is good for. -/
def Always (prog : κ → Prog σ α) (p : σ → κ → Prop) : σ → List κ → Prop
  | _, [] => True
  | s, c :: cs => p s c ∧ ∀ a s', prog c s = some (a, s') → Always prog p s' cs

/-- Every command of a run returns, and does what `q` says. -/
def Throughout (prog : κ → Prog σ α) (q : σ → κ → α → σ → Prop) : σ → List κ → Prop
  | _, [] => True
  | s, c :: cs => ∃ a s', prog c s = some (a, s') ∧ q s c a s' ∧ Throughout prog q s' cs

section
variable {prog : κ → Prog σ α} {p : σ → κ → Prop} {q : σ → κ → α → σ → Prop}
variable {s s' : σ} {c : κ} {cs : List κ} {a : α}

theorem always_cons (h : prog c s = some (a, s')) :
    Always prog p s (c :: cs) ↔ p s c ∧ Always prog p s' cs := by
  refine and_congr_right fun _ => ⟨fun hall => hall a s' h, fun hone b t ht => ?_⟩
  obtain ⟨-, rfl⟩ := run_unique h ht
  exact hone

theorem throughout_cons (h : prog c s = some (a, s')) :
    Throughout prog q s (c :: cs) ↔ q s c a s' ∧ Throughout prog q s' cs := by
  constructor
  · rintro ⟨b, t, ht, hrest⟩
    obtain ⟨rfl, rfl⟩ := run_unique h ht
    exact hrest
  · exact fun hrest => ⟨a, s', h, hrest⟩

end

end MiniFs.Library.Exec

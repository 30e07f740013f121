import MiniFs.Library.Exec

/-! # Partial-correctness triples

`Triple P m Q` says what holds of an answer if there is one; a stuck program
satisfies every triple. There is a rule for each way a program is built.
-/

namespace MiniFs.Library.Exec

variable {σ α β : Type} {P R : σ → Prop} {Q : α → σ → Prop}

/-- If the program returns from a state with `P`, the answer and the last state satisfy `Q`. -/
def Triple (P : σ → Prop) (m : Prog σ α) (Q : α → σ → Prop) : Prop :=
  ∀ s a s', P s → m s = some (a, s') → Q a s'

namespace Triple

theorem pure {a : α} (h : ∀ s, P s → Q a s) : Triple P (pure a) Q := by
  intro s b s' hs hrun
  obtain ⟨rfl, rfl⟩ := returned_inj hrun
  exact h s hs

theorem bind {m : Prog σ β} {f : β → Prog σ α} {I : β → σ → Prop} (hm : Triple P m I)
    (hf : ∀ b, Triple (I b) (f b) Q) : Triple P (m >>= f) Q := by
  intro s a s' hs hrun
  obtain ⟨b, s1, hb, ha⟩ := bind_inv hrun
  exact hf b s1 a s' (hm s b s1 hs hb) ha

theorem ask {f : σ → α} (h : ∀ s, P s → Q (f s) s) : Triple P (ask f) Q := by
  intro s a s' hs hrun
  obtain ⟨rfl, rfl⟩ := returned_inj hrun
  exact h s hs

theorem update {f : σ → σ} {Q : Unit → σ → Prop} (h : ∀ s, P s → Q () (f s)) :
    Triple P (update f) Q := by
  intro s a s' hs hrun
  obtain ⟨-, rfl⟩ := returned_inj hrun
  exact h s hs

theorem stuck : Triple P (Exec.stuck : Prog σ α) Q := fun _ _ _ _ hrun => by cases hrun

theorem require {p : Prop} [Decidable p] :
    Triple P (Exec.require p : Prog σ Unit) fun _ s => P s ∧ p := by
  by_cases hp : p
  · rw [require_pos hp]
    exact Triple.pure fun _ hs => ⟨hs, hp⟩
  · rw [require_neg hp]
    exact Triple.stuck

/-- A precondition that does not depend on the state. -/
theorem fact {p : Prop} {m : Prog σ α} (h : p → Triple (fun _ => True) m Q) :
    Triple (fun _ => p) m Q := fun s a s' hp hrun => h hp s a s' True.intro hrun

theorem trivial {m : Prog σ α} : Triple P m fun _ _ => True := fun _ _ _ _ _ => True.intro

theorem forLoop {body : ℕ → Prog σ Unit} {count start : ℕ}
    (h : ∀ i, Triple P (body i) fun _ => P) : Triple P (Exec.forLoop body count start) fun _ => P := by
  induction count generalizing start with
  | zero => exact Triple.pure fun _ hs => hs
  | succ count ih => exact (h start).bind fun _ => ih

/-- A pass that returns nothing keeps the invariant; one that returns ends the loop. -/
theorem search {body : ℕ → Prog σ (Option α)} {count start : ℕ}
    (h : ∀ i, i < start + count → Triple P (body i) fun r s => r.elim (P s) fun a => Q a s) :
    Triple P (Exec.search body count start) fun r s => r.elim (P s) fun a => Q a s := by
  induction count generalizing start with
  | zero => exact Triple.pure fun _ hs => hs
  | succ count ih =>
    refine (h start (by omega)).bind fun r => ?_
    cases r with
    | none => exact ih fun i hi => h i (by omega)
    | some a => exact Triple.pure fun _ hs => hs

end Triple

end MiniFs.Library.Exec

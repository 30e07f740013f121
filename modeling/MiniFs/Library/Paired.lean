import Mathlib.Data.List.Forall2

/-! # Lists in step

Two lists whose elements correspond one by one: what is found, replaced or removed in
the one corresponds to what is in the other.
-/

set_option autoImplicit false

namespace MiniFs.Library.Paired
open List

variable {α β : Type} {R : α → β → Prop} {l : List α} {k : List β} {p : α → Bool} {q : β → Bool}

theorem find? (h : Forall₂ R l k) (hpq : ∀ a b, R a b → p a = q b) :
    Option.Rel R (l.find? p) (k.find? q) := by
  induction h with
  | nil => exact .none
  | @cons a b l k hab _ ih =>
    rw [List.find?_cons, List.find?_cons, hpq a b hab]
    cases q b with
    | true => exact .some hab
    | false => exact ih

theorem findIdx (h : Forall₂ R l k) (hpq : ∀ a b, R a b → p a = q b) :
    l.findIdx p = k.findIdx q := by
  induction h with
  | nil => rfl
  | @cons a b l k hab _ ih => rw [List.findIdx_cons, List.findIdx_cons, hpq a b hab, ih]

theorem set (h : Forall₂ R l k) {a : α} {b : β} (hab : R a b) (i : ℕ) :
    Forall₂ R (l.set i a) (k.set i b) := by
  induction h generalizing i with
  | nil => exact .nil
  | cons hcd hrest ih =>
    cases i with
    | zero => exact .cons hab hrest
    | succ i => exact .cons hcd (ih i)

theorem eraseIdx (h : Forall₂ R l k) (i : ℕ) : Forall₂ R (l.eraseIdx i) (k.eraseIdx i) := by
  induction h generalizing i with
  | nil => exact .nil
  | cons hcd hrest ih =>
    cases i with
    | zero => exact hrest
    | succ i => exact .cons hcd (ih i)

theorem append_singleton (h : Forall₂ R l k) {a : α} {b : β} (hab : R a b) :
    Forall₂ R (l ++ [a]) (k ++ [b]) :=
  rel_append h (.cons hab .nil)

theorem map_eq {γ : Type} (h : Forall₂ R l k) {f : α → γ} {g : β → γ}
    (hfg : ∀ a b, R a b → g b = f a) : k.map g = l.map f := by
  induction h with
  | nil => rfl
  | cons hab _ ih => rw [List.map_cons, List.map_cons, hfg _ _ hab, ih]

theorem flatMap {γ δ : Type} {S : γ → δ → Prop} (h : Forall₂ R l k) {f : α → List γ}
    {g : β → List δ} (hfg : ∀ a b, R a b → Forall₂ S (f a) (g b)) :
    Forall₂ S (l.flatMap f) (k.flatMap g) :=
  rel_flatMap h fun {a b} hab => hfg a b hab

theorem mem_iff (hR : Relator.BiUnique R) (h : Forall₂ R l k) {a : α} {b : β} (hab : R a b) :
    a ∈ l ↔ b ∈ k :=
  rel_mem hR hab h

theorem nodup_iff (hR : Relator.BiUnique R) (h : Forall₂ R l k) : l.Nodup ↔ k.Nodup := by
  induction h with
  | nil => exact iff_of_true .nil .nil
  | cons hab hrest ih => rw [List.nodup_cons, List.nodup_cons, ih, mem_iff hR hrest hab]

/-- What holds of an element of the one list holds of an element of the other. -/
theorem forall_iff (h : Forall₂ R l k) {P : α → Prop} {Q : β → Prop}
    (hPQ : ∀ a b, R a b → (P a ↔ Q b)) : (∀ a ∈ l, P a) ↔ ∀ b ∈ k, Q b := by
  induction h with
  | nil => exact iff_of_true (by simp) (by simp)
  | cons hab _ ih => rw [List.forall_mem_cons, List.forall_mem_cons, hPQ _ _ hab, ih]

theorem exists_iff (h : Forall₂ R l k) {P : α → Prop} {Q : β → Prop}
    (hPQ : ∀ a b, R a b → (P a ↔ Q b)) : (∃ a ∈ l, P a) ↔ ∃ b ∈ k, Q b := by
  rw [← not_iff_not]
  push Not
  exact forall_iff h fun a b hab => not_congr (hPQ a b hab)

end MiniFs.Library.Paired

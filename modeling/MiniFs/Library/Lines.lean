import Mathlib.Data.List.Basic

/-! # Lines

A line is a list that ends with the separator and holds it nowhere else. A text
that is cut to a length and then given a separator, if there is room for it, is a line
exactly if it had none and was short enough, or if the cut left the first one at its end.
-/

set_option autoImplicit false

namespace MiniFs.Library

variable {α : Type} {nl : α} {n : ℕ} {l : List α}

def IsLine (nl : α) (l : List α) : Prop := ∃ body, l = body ++ [nl] ∧ nl ∉ body

theorem isLine_append_singleton : IsLine nl (l ++ [nl]) ↔ nl ∉ l := by
  constructor
  · rintro ⟨body, heq, hbody⟩
    rwa [List.append_cancel_right heq]
  · exact fun h => ⟨l, rfl, h⟩

theorem not_isLine_append {a b : List α} (hb : b ≠ []) (hnl : nl ∉ b) : ¬IsLine nl (a ++ b) := by
  rintro ⟨body, heq, -⟩
  have hlast : b.getLast? = some nl := by
    rw [← List.getLast?_append_of_ne_nil a hb, heq, List.getLast?_concat]
  exact hnl (List.mem_of_getLast? hlast)

variable [DecidableEq α]

/-- The first separator is the last element. -/
theorem isLine_iff_idxOf : IsLine nl l ↔ l.idxOf nl + 1 = l.length := by
  constructor
  · rintro ⟨body, rfl, hbody⟩
    rw [List.idxOf_append_of_notMem hbody, List.idxOf_cons_self, List.length_append,
      List.length_singleton, Nat.add_zero]
  · intro h
    have hlt : l.idxOf nl < l.length := by omega
    have hdrop : l.drop (l.idxOf nl) = [nl] := by
      rw [List.drop_eq_getElem_cons hlt, List.getElem_idxOf, h, List.drop_length]
    refine ⟨l.take (l.idxOf nl), ?_, fun hmem => ?_⟩
    · rw [← hdrop, List.take_append_drop]
    · have hfirst : (l.take (l.idxOf nl) ++ l.drop (l.idxOf nl)).idxOf nl = _ :=
        List.idxOf_append_of_mem hmem
      have hshort := List.idxOf_lt_length_of_mem hmem
      rw [List.take_append_drop] at hfirst
      rw [List.length_take] at hshort
      omega

/-- Where the first separator of a cut text stands. -/
theorem isLine_take_iff : IsLine nl (l.take n) ↔ l.idxOf nl + 1 = min n l.length := by
  rw [isLine_iff_idxOf, List.length_take]
  by_cases hmem : nl ∈ l.take n
  · have hfirst : (l.take n ++ l.drop n).idxOf nl = _ := List.idxOf_append_of_mem hmem
    rw [List.take_append_drop] at hfirst
    rw [hfirst]
  · have hcut := List.idxOf_eq_length_iff.mpr hmem
    have hrest : l.idxOf nl = (l.take n).length + (l.drop n).idxOf nl := by
      rw [← List.idxOf_append_of_notMem hmem, List.take_append_drop]
    rw [List.length_take] at hcut hrest
    omega

/-- The text in `n` places, and a separator if it is missing and there is room. -/
def cutLine (nl : α) (n : ℕ) (l : List α) : List α :=
  if (l.take n).getLast? ≠ some nl ∧ (l.take n).length < n then l.take n ++ [nl] else l.take n

theorem isLine_cutLine_iff :
    IsLine nl (cutLine nl n l) ↔ nl ∉ l ∧ l.length < n ∨ l.idxOf nl + 1 = min n l.length := by
  rw [← isLine_take_iff, cutLine]
  split_ifs with h
  · -- there is room, so nothing was cut
    obtain ⟨hlast, hroom⟩ := h
    have hlen : l.length < n := by
      rw [List.length_take] at hroom
      omega
    rw [List.take_of_length_le (Nat.le_of_lt hlen)] at hlast ⊢
    rw [isLine_append_singleton]
    constructor
    · exact fun hnot => .inl ⟨hnot, hlen⟩
    · rintro (⟨hnot, -⟩ | ⟨body, rfl, -⟩)
      · exact hnot
      · exact absurd List.getLast?_concat hlast
  · constructor
    · exact .inr
    · rintro (⟨hnot, hlen⟩ | hline)
      · rw [List.take_of_length_le (Nat.le_of_lt hlen)] at h
        exact absurd ⟨fun hlast => hnot (List.mem_of_getLast? hlast), hlen⟩ h
      · exact hline

/-- A text of lines has as many separators as lines. -/
theorem count_flatten {ls : List (List α)} (h : ∀ l ∈ ls, IsLine nl l) :
    ls.flatten.count nl = ls.length := by
  induction ls with
  | nil => rfl
  | cons l ls ih =>
    obtain ⟨body, rfl, hbody⟩ := h l List.mem_cons_self
    rw [List.flatten_cons, List.count_append, ih fun m hm => h m (List.mem_cons_of_mem _ hm),
      List.count_append, List.count_eq_zero_of_not_mem hbody, List.count_singleton_self,
      List.length_cons]
    omega

end MiniFs.Library

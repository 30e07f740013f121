import Mathlib.Data.List.TakeWhile
import Mathlib.Algebra.GroupWithZero.Nat

/-! # The words of a list

The maximal runs of elements that are not separators, in order. Separators before
and after do not matter, nor how many stand between two words.
-/

namespace MiniFs.Library.Words

variable {α : Type*} {sep : α → Bool} {a : α} {l l' w : List α} {ws ws' : List (List α)}

def words (sep : α → Bool) (l : List α) : List (List α) :=
  (l.splitOnP sep).filter fun w => !w.isEmpty

def IsWord (sep : α → Bool) (w : List α) : Prop := w ≠ [] ∧ ∀ x ∈ w, sep x = false

instance (sep : α → Bool) (w : List α) : Decidable (IsWord sep w) :=
  inferInstanceAs (Decidable (_ ∧ _))

@[simp] theorem words_nil : words sep [] = [] := rfl

theorem words_append_cons (h : sep a = true) :
    words sep (l ++ a :: l') = words sep l ++ words sep l' := by
  rw [words, List.splitOnP_append_cons l l' h, List.filter_append]
  rfl

theorem words_cons (h : sep a = true) : words sep (a :: l) = words sep l := by
  have happend : words sep ([] ++ a :: l) = words sep [] ++ words sep l := words_append_cons h
  rwa [List.nil_append, words_nil, List.nil_append] at happend

theorem words_word (h : IsWord sep w) : words sep w = [w] := by
  rw [words, List.splitOnP_eq_singleton h.2]
  simpa using h.1

theorem words_append_left (h : ∀ x ∈ l, sep x = true) : words sep (l ++ l') = words sep l' := by
  induction l with
  | nil => rfl
  | cons x l ih =>
    rw [List.cons_append, words_cons (h x List.mem_cons_self)]
    exact ih fun y hy => h y (List.mem_cons_of_mem x hy)

theorem words_blank (h : ∀ x ∈ l, sep x = true) : words sep l = [] := by
  have happend : words sep (l ++ []) = words sep [] := words_append_left h
  rwa [List.append_nil, words_nil] at happend

theorem words_append_right (h : ∀ x ∈ l', sep x = true) : words sep (l ++ l') = words sep l := by
  cases l' with
  | nil => rw [List.append_nil]
  | cons x l' =>
    rw [words_append_cons (h x List.mem_cons_self),
      words_blank fun y hy => h y (List.mem_cons_of_mem x hy), List.append_nil]

/-- Leaving a list's separators out joins its words. -/
theorem flatten_words (sep : α → Bool) (l : List α) :
    (words sep l).flatten = l.filter fun x => !sep x := by
  rw [words, List.flatten_filter_not_isEmpty]
  induction l with
  | nil => rfl
  | cons x l ih =>
    rw [List.splitOnP_cons_eq_if_modifyHead]
    by_cases hx : sep x = true
    · rw [if_pos hx, List.flatten_cons, List.nil_append, ih,
        List.filter_cons_of_neg (by simpa using hx)]
    · rw [if_neg hx, List.filter_cons_of_pos (by simpa using hx), ← ih]
      cases hsplit : l.splitOnP sep with
      | nil => exact absurd hsplit (List.splitOnP_ne_nil _ _)
      | cons w ws => rfl

theorem isWord_of_mem (h : w ∈ words sep l) : IsWord sep w := by
  have hw := (List.mem_filter.mp h).2
  refine ⟨by simpa using hw, fun x hx => ?_⟩
  have hmem : x ∈ l.filter fun x => !sep x := by
    rw [← flatten_words]
    exact List.mem_flatten.mpr ⟨w, h, hx⟩
  simpa using (List.mem_filter.mp hmem).2

theorem words_eq_nil_iff : words sep l = [] ↔ ∀ x ∈ l, sep x = true := by
  constructor
  · intro h x hx
    by_contra hsep
    have hmem : x ∈ (words sep l).flatten := by
      rw [flatten_words]
      exact List.mem_filter.mpr ⟨hx, by simpa using hsep⟩
    rw [h] at hmem
    exact absurd hmem List.not_mem_nil
  · exact words_blank

/-- The first word and those of the rest. -/
theorem words_word_cons (h : IsWord sep w) (ha : sep a = true) :
    words sep (w ++ a :: l) = w :: words sep l := by
  rw [words_append_cons ha, words_word h, List.singleton_append]

theorem words_dropWhile (sep : α → Bool) (l : List α) :
    words sep (l.dropWhile sep) = words sep l := by
  have h : words sep (l.takeWhile sep ++ l.dropWhile sep) = words sep (l.dropWhile sep) :=
    words_append_left fun x hx => List.mem_takeWhile_imp hx
  rw [← h, List.takeWhile_append_dropWhile]

/-- The first word reaches to the next separator, and the others follow that. -/
theorem words_eq_cons (h : l.dropWhile sep ≠ []) :
    words sep l = (l.dropWhile sep).takeWhile (fun x => !sep x) ::
      words sep (((l.dropWhile sep).dropWhile fun x => !sep x).drop 1) := by
  have hhead := List.head?_dropWhile_not sep l
  rw [← words_dropWhile]
  cases hstart : l.dropWhile sep with
  | nil => exact absurd hstart h
  | cons x start =>
    rw [hstart] at hhead
    have hx : sep x = false := by simpa using hhead
    have hword : IsWord sep ((x :: start).takeWhile fun y => !sep y) :=
      ⟨by simp [hx], fun y hy => by simpa using List.mem_takeWhile_imp hy⟩
    have hsplit := List.takeWhile_append_dropWhile (p := fun y => !sep y) (l := x :: start)
    have hafter := List.head?_dropWhile_not (fun y => !sep y) (x :: start)
    cases hrest : (x :: start).dropWhile (fun y => !sep y) with
    | nil =>
      rw [hrest, List.append_nil] at hsplit
      rw [hsplit] at hword ⊢
      rw [words_word hword, List.drop_nil, words_nil]
    | cons y rest =>
      rw [hrest] at hsplit hafter
      have hy : sep y = true := by simpa using hafter
      rw [List.drop_one, List.tail_cons, ← words_word_cons hword hy, hsplit]

/-- What is not a separator begins a word. -/
theorem words_cons_word (h : sep a = false) : ∃ w ws, words sep (a :: l) = (a :: w) :: ws := by
  have hstart : (a :: l).dropWhile sep = a :: l := List.dropWhile_cons_of_neg (by simp [h])
  rw [words_eq_cons (by simp [hstart]), hstart, List.takeWhile_cons_of_pos (by simp [h])]
  exact ⟨_, _, rfl⟩

/-! ## Words and lengths -/

theorem length_eq (sep : α → Bool) (l : List α) :
    l.length = (words sep l).flatten.length + l.countP sep := by
  rw [flatten_words, ← List.countP_eq_length_filter, Nat.add_comm,
    List.length_eq_countP_add_countP sep]
  congr 2
  funext x
  simp

/-- Between two words stands a separator. -/
theorem length_words_le (sep : α → Bool) (l : List α) :
    (words sep l).length ≤ l.countP sep + 1 := by
  refine Nat.le_trans (List.length_filter_le _ _) ?_
  induction l with
  | nil => simp
  | cons x l ih =>
    rw [List.splitOnP_cons_eq_if_modifyHead, List.countP_cons]
    split_ifs with hx
    · rw [List.length_cons]
      omega
    · rw [List.length_modifyHead]
      omega

/-- Words joined by a separator are the words of what results. -/
theorem words_intercalate (ha : sep a = true) (h : ∀ w ∈ ws, IsWord sep w) :
    words sep ([a].intercalate ws) = ws := by
  induction ws with
  | nil => rfl
  | cons w ws ih =>
    have hw := h w List.mem_cons_self
    cases ws with
    | nil => rw [List.intercalate_singleton, words_word hw]
    | cons w' ws =>
      rw [List.intercalate_cons_cons, List.append_assoc, List.singleton_append,
        words_word_cons hw ha, ih fun v hv => h v (List.mem_cons_of_mem w hv)]

theorem intercalate_inj (ha : sep a = true) (h : ∀ w ∈ ws, IsWord sep w)
    (h' : ∀ w ∈ ws', IsWord sep w) (heq : [a].intercalate ws = [a].intercalate ws') : ws = ws' := by
  rw [← words_intercalate ha h, heq, words_intercalate ha h']

theorem intercalate_cons (a : α) (w : List α) (ws : List (List α)) :
    [a].intercalate (w :: ws) = w ++ ws.flatMap fun v => a :: v := by
  induction ws generalizing w with
  | nil => simp
  | cons w' ws ih =>
    rw [List.intercalate_cons_cons, ih w', List.flatMap_cons, List.append_assoc,
      List.singleton_append, List.cons_append]

theorem length_intercalate (a : α) (ws : List (List α)) :
    ([a].intercalate ws).length = ws.flatten.length + (ws.length - 1) := by
  cases ws with
  | nil => rfl
  | cons w ws =>
    rw [intercalate_cons, List.length_append, List.flatten_cons, List.length_append,
      List.length_cons, Nat.add_sub_cancel, List.length_flatMap, List.length_flatten]
    induction ws with
    | nil => rfl
    | cons w' ws ih =>
      simp only [List.map_cons, List.sum_cons, List.length_cons] at ih ⊢
      omega

end MiniFs.Library.Words

import MiniFs.Library.Words

/-! # Words with quotes

A splitter that keeps separators and other quotes between two equal quotes. A quote
is dropped where it opens or closes, and may stand in the middle of a word. What is dropped is
missing from the total length of the words.
-/

namespace MiniFs.Library.Quoted
open Words

section Weight
variable {α : Type*} {ws : List (List α)}

/-- A word, unless nothing was collected. -/
def flush (cur : List α) : List (List α) := if cur = [] then [] else [cur]

/-- Length, a separator behind each word included. -/
def weight (ws : List (List α)) : ℕ := (ws.map fun w => w.length + 1).sum

@[simp] theorem weight_cons (w : List α) (ws : List (List α)) :
    weight (w :: ws) = w.length + 1 + weight ws := rfl

theorem weight_append (ws ws' : List (List α)) : weight (ws ++ ws') = weight ws + weight ws' := by
  rw [weight, List.map_append, List.sum_append]
  rfl

theorem weight_flush_le (cur : List α) : weight (flush cur) ≤ cur.length + 1 := by
  unfold flush
  split_ifs
  · exact Nat.zero_le _
  · exact Nat.le_refl _

theorem weight_eq (ws : List (List α)) : weight ws = ws.flatten.length + ws.length := by
  induction ws with
  | nil => rfl
  | cons w ws ih =>
    rw [weight_cons, ih, List.flatten_cons, List.length_append, List.length_cons]
    omega

/-- Joined words are shorter by the last separator. -/
theorem length_intercalate_add_one (a : α) (h : ws ≠ []) :
    ([a].intercalate ws).length + 1 = weight ws := by
  have hpos := List.length_pos_iff.mpr h
  rw [length_intercalate, weight_eq]
  omega

end Weight

variable {α : Type*} [DecidableEq α] (sep quote : α → Bool)

/-- The words, with `cur` collected so far and the quote that is open. -/
def scan : Option α → List α → List α → List (List α)
  | _, cur, [] => flush cur
  | some q, cur, x :: l => if x = q then scan none cur l else scan (some q) (cur ++ [x]) l
  | none, cur, x :: l =>
    if quote x then scan (some x) cur l
    else if sep x then flush cur ++ scan none [] l
    else scan none (cur ++ [x]) l

/-- The number of quotes that open or close. -/
def drops : Option α → List α → ℕ
  | _, [] => 0
  | some q, x :: l => if x = q then 1 + drops none l else drops (some q) l
  | none, x :: l => if quote x then 1 + drops (some x) l else drops none l

variable {sep quote} {q s : α} {cur l w : List α} {ws : List (List α)}

/-- Words and dropped quotes together are no longer than the text. -/
theorem weight_scan_le (m : Option α) (cur l : List α) :
    weight (scan sep quote m cur l) + drops quote m l ≤ cur.length + l.length + 1 := by
  fun_induction scan sep quote m cur l with
  | case1 m cur =>
    have h := weight_flush_le cur
    cases m <;> simp only [drops] <;> omega
  | case2 q cur l ih =>
    simp only [drops, List.length_cons, if_true]
    omega
  | case3 q cur x l hx ih =>
    simp only [drops, hx, if_false, List.length_append, List.length_cons, List.length_nil] at ih ⊢
    omega
  | case4 cur x l hx ih =>
    simp only [drops, hx, if_true, List.length_cons] at ih ⊢
    omega
  | case5 cur x l hx hs ih =>
    have h := weight_flush_le cur
    rw [weight_append]
    simp only [drops, hx, Bool.false_eq_true, if_false, List.length_nil, List.length_cons] at ih ⊢
    omega
  | case6 cur x l hx hs ih =>
    simp only [drops, hx, Bool.false_eq_true, if_false, List.length_append, List.length_cons,
      List.length_nil] at ih ⊢
    omega

/-! ## Texts without quotes -/

/-- What is neither quote nor separator is collected. -/
theorem scan_plain (h : ∀ x ∈ w, quote x = false ∧ sep x = false) :
    scan sep quote none cur (w ++ l) = scan sep quote none (cur ++ w) l := by
  induction w generalizing cur with
  | nil => rw [List.nil_append, List.append_nil]
  | cons x w ih =>
    obtain ⟨hq, hs⟩ := h x List.mem_cons_self
    rw [List.cons_append, scan, if_neg (by simp [hq]), if_neg (by simp [hs]),
      ih fun y hy => h y (List.mem_cons_of_mem x hy), List.append_assoc, List.singleton_append]

/-- Between two quotes everything else is collected. -/
theorem scan_quoted (h : q ∉ w) :
    scan sep quote (some q) cur (w ++ q :: l) = scan sep quote none (cur ++ w) l := by
  induction w generalizing cur with
  | nil => rw [List.nil_append, List.append_nil, scan, if_pos rfl]
  | cons x w ih =>
    obtain ⟨hx, hw⟩ := not_or.mp (List.mem_cons.not.mp h)
    rw [List.cons_append, scan, if_neg (Ne.symm hx), ih hw, List.append_assoc,
      List.singleton_append]

/-- Without a closing quote all the rest belongs to the last word. -/
theorem scan_unclosed (h : q ∉ w) : scan sep quote (some q) cur w = flush (cur ++ w) := by
  induction w generalizing cur with
  | nil => rw [List.append_nil, scan]
  | cons x w ih =>
    obtain ⟨hx, hw⟩ := not_or.mp (List.mem_cons.not.mp h)
    rw [scan, if_neg (Ne.symm hx), ih hw, List.append_assoc, List.singleton_append]

omit [DecidableEq α] in
theorem flush_eq_words (hcur : ∀ x ∈ cur, sep x = false) : flush cur = words sep cur := by
  unfold flush
  split_ifs with hnil
  · rw [hnil, words_nil]
  · rw [words_word ⟨hnil, hcur⟩]

/-- A text without quotes is split at its separators. -/
theorem scan_eq_words (hl : ∀ x ∈ l, quote x = false) (hcur : ∀ x ∈ cur, sep x = false) :
    scan sep quote none cur l = words sep (cur ++ l) := by
  induction l generalizing cur with
  | nil => rw [scan, List.append_nil, flush_eq_words hcur]
  | cons x l ih =>
    obtain ⟨hx, hl⟩ := List.forall_mem_cons.mp hl
    rw [scan, if_neg (by simp [hx])]
    by_cases hsx : sep x = true
    · rw [if_pos hsx, ih hl (List.forall_mem_nil _), List.nil_append, words_append_cons hsx,
        flush_eq_words hcur]
    · have hx : ∀ y ∈ [x], sep y = false := List.forall_mem_singleton.mpr (by simpa using hsx)
      rw [if_neg hsx, ih hl (List.forall_mem_append.mpr ⟨hcur, hx⟩), List.append_assoc,
        List.singleton_append]

/-- So is its beginning without quotes, up to a separator. -/
theorem scan_words (hl : ∀ x ∈ l, quote x = false) (hcur : ∀ x ∈ cur, sep x = false)
    (hs : sep s = true) (hq : quote s = false) {l' : List α} :
    scan sep quote none cur (l ++ s :: l') = words sep (cur ++ l) ++ scan sep quote none [] l' := by
  induction l generalizing cur with
  | nil =>
    rw [List.nil_append, List.append_nil, scan, if_neg (by simp [hq]), if_pos hs,
      flush_eq_words hcur]
  | cons x l ih =>
    obtain ⟨hx, hl⟩ := List.forall_mem_cons.mp hl
    rw [List.cons_append, scan, if_neg (by simp [hx])]
    by_cases hsx : sep x = true
    · rw [if_pos hsx, ih hl (List.forall_mem_nil _), List.nil_append, words_append_cons hsx,
        List.append_assoc, flush_eq_words hcur]
    · have hx : ∀ y ∈ [x], sep y = false := List.forall_mem_singleton.mpr (by simpa using hsx)
      rw [if_neg hsx, ih hl (List.forall_mem_append.mpr ⟨hcur, hx⟩), List.append_assoc,
        List.singleton_append]

/-! ## A word and a quoted text -/

theorem drops_plain (h : ∀ x ∈ w, quote x = false) :
    drops quote none (w ++ l) = drops quote none l := by
  induction w with
  | nil => rfl
  | cons x w ih =>
    rw [List.cons_append, drops, if_neg (by simp [h x List.mem_cons_self]),
      ih fun y hy => h y (List.mem_cons_of_mem x hy)]

theorem drops_quoted (h : q ∉ w) :
    drops quote (some q) (w ++ q :: l) = 1 + drops quote none l := by
  induction w with
  | nil => rw [List.nil_append, drops, if_pos rfl]
  | cons x w ih =>
    obtain ⟨hx, hw⟩ := not_or.mp (List.mem_cons.not.mp h)
    rw [List.cons_append, drops, if_neg (Ne.symm hx), ih hw]

omit [DecidableEq α] in
/-- The first quote of a text. -/
theorem exists_first_quote (h : ∃ x ∈ l, quote x = true) :
    ∃ w r l', l = w ++ r :: l' ∧ quote r = true ∧ ∀ x ∈ w, quote x = false := by
  obtain ⟨r, hr⟩ := Option.isSome_iff_exists.mp (List.find?_isSome.mpr h)
  obtain ⟨hquote, w, l', rfl, hw⟩ := List.find?_eq_some_iff_append.mp hr
  exact ⟨w, r, l', rfl, hquote, fun x hx => by simpa using hw x hx⟩

theorem one_le_drops (h : ∃ x ∈ l, quote x = true) : 1 ≤ drops quote none l := by
  obtain ⟨w, r, l', rfl, hr, hw⟩ := exists_first_quote h
  rw [drops_plain hw, drops, if_pos hr]
  exact Nat.le_add_right 1 _

section Argument
variable {c : List α}

/-- Only the two quotes around `c` are dropped, or three are, or one is left open before them. -/
theorem drops_cases (hq : quote q = true) (hs : quote s = false) (w c : List α) :
    ((∀ x ∈ w, quote x = false) ∧ q ∉ c) ∨ 3 ≤ drops quote none (w ++ s :: q :: (c ++ [q])) ∨
      ∃ w₁ r w₂, w = w₁ ++ r :: w₂ ∧ quote r = true ∧ (∀ x ∈ w₁, quote x = false) ∧
        r ∉ w₂ ++ s :: q :: (c ++ [q]) := by
  by_cases hw : ∃ x ∈ w, quote x = true
  · obtain ⟨w₁, r, w₂, rfl, hr, hw₁⟩ := exists_first_quote hw
    by_cases hmem : r ∈ w₂ ++ s :: q :: (c ++ [q])
    · refine .inr (.inl ?_)
      obtain ⟨z, z', hz, hnot⟩ := List.eq_append_cons_of_mem hmem
      rw [List.append_assoc, drops_plain hw₁, List.cons_append, drops, if_pos hr, hz,
        drops_quoted hnot]
      have hmem' : q ∈ z' := by
        obtain rfl | ⟨z'', b, rfl⟩ := List.eq_nil_or_concat z'
        · -- then `r` would be the last quote, and there is one before
          have hz' : (w₂ ++ s :: q :: c) ++ [q] = z ++ [r] := by simpa using hz
          obtain ⟨rfl, hrq⟩ := List.append_inj' hz' rfl
          rw [← (List.cons.inj hrq).1] at hnot
          simp at hnot
        · have hz' : (w₂ ++ s :: q :: c) ++ [q] = (z ++ r :: z'') ++ [b] := by simpa using hz
          have hb := (List.append_inj' hz' rfl).2
          rw [(List.cons.inj hb).1]
          simp
      have hone := one_le_drops ⟨q, hmem', hq⟩
      omega
    · exact .inr (.inr ⟨w₁, r, w₂, rfl, hr, hw₁, hmem⟩)
  · have hplain : ∀ x ∈ w, quote x = false := fun x hx => by
      by_contra hx'
      exact hw ⟨x, hx, by simpa using hx'⟩
    by_cases hc : q ∈ c
    · refine .inr (.inl ?_)
      obtain ⟨z, z', rfl, hnot⟩ := List.eq_append_cons_of_mem hc
      have hone : 1 ≤ drops quote none (z' ++ [q]) := one_le_drops ⟨q, by simp, hq⟩
      rw [drops_plain hplain, drops, if_neg (by simp [hs]), drops, if_pos hq, List.append_assoc,
        List.cons_append, drops_quoted hnot]
      omega
    · exact .inl ⟨hplain, hc⟩

/-- A beginning without quotes gives some words and the beginning of the next. -/
theorem scan_append (h : ∀ x ∈ w, quote x = false) (cur : List α) :
    ∃ ws t, ∀ l, scan sep quote none cur (w ++ l) = ws ++ scan sep quote none t l := by
  induction w generalizing cur with
  | nil => exact ⟨[], cur, fun l => rfl⟩
  | cons x w ih =>
    have hx := h x List.mem_cons_self
    have hw : ∀ y ∈ w, quote y = false := fun y hy => h y (List.mem_cons_of_mem x hy)
    by_cases hsx : sep x = true
    · obtain ⟨ws, t, hws⟩ := ih hw []
      refine ⟨flush cur ++ ws, t, fun l => ?_⟩
      rw [List.cons_append, scan, if_neg (by simp [hx]), if_pos hsx, hws, List.append_assoc]
    · obtain ⟨ws, t, hws⟩ := ih hw (cur ++ [x])
      refine ⟨ws, t, fun l => ?_⟩
      rw [List.cons_append, scan, if_neg (by simp [hx]), if_neg hsx, hws]

/-- If such a text gives back `w`, and behind it words that joined are about as long as `c`, then
the quotes are paired as they were meant. -/
theorem of_scan_eq_cons (hq : quote q = true) (hs : quote s = false) {a : α}
    (h : scan sep quote none [] (w ++ s :: q :: (c ++ [q])) = w :: ws) (hws : ws ≠ [])
    (hle : c.length ≤ ([a].intercalate ws).length)
    (hge : ([a].intercalate ws).length ≤ c.length + 2) :
    (∀ x ∈ w, quote x = false) ∧ q ∉ c := by
  have hjoin := length_intercalate_add_one a hws
  obtain hpaired | hdrops | ⟨w₁, r, w₂, hw, hr, hw₁, hnot⟩ := drops_cases hq hs w c
  · exact hpaired
  · have hweight : weight (scan sep quote none [] (w ++ s :: q :: (c ++ [q]))) + _ ≤ _ :=
      weight_scan_le none [] (w ++ s :: q :: (c ++ [q]))
    rw [h, weight_cons] at hweight
    simp only [List.length_append, List.length_cons, List.length_nil] at hweight
    omega
  · -- the open quote takes `c` and all around it into the last word
    exfalso
    obtain ⟨vs, t, hvs⟩ : ∃ vs t, ∀ l, scan sep quote none [] (w₁ ++ l) =
        vs ++ scan sep quote none t l := scan_append hw₁ []
    have hlast : flush (t ++ (w₂ ++ s :: q :: (c ++ [q]))) = [t ++ (w₂ ++ s :: q :: (c ++ [q]))] :=
      if_neg (by simp)
    rw [hw, List.append_assoc, hvs, List.cons_append, scan, if_pos hr, scan_unclosed hnot, hlast]
      at h
    cases vs with
    | nil => exact hws (List.cons.inj h).2.symm
    | cons v vs =>
      have hws' : vs ++ [t ++ (w₂ ++ s :: q :: (c ++ [q]))] = ws := (List.cons.inj h).2
      rw [← hws'] at hjoin hge
      rw [weight_append, weight_cons] at hjoin
      simp only [List.length_append, List.length_cons, List.length_nil] at hjoin
      omega

theorem scan_argument (hsep : sep s = true) (hq : quote q = true) (hs : quote s = false)
    (hw : ∀ x ∈ w, quote x = false) (hc : q ∉ c) :
    scan sep quote none [] (w ++ s :: q :: (c ++ [q])) = words sep w ++ flush c := by
  rw [scan_words hw (List.forall_mem_nil _) hsep hs, List.nil_append]
  congr 1
  rw [scan, if_pos hq, scan_quoted hc, List.nil_append, scan]

end Argument

end MiniFs.Library.Quoted

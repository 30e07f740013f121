import Mathlib.Data.List.Basic
import Mathlib.Tactic.SplitIfs

/-! # Code in an attribute

An event handler is a text between double quotes in HTML, and a string in it a literal between
single quotes in JavaScript, both over UTF-16 code units. A string is never longer than its text,
and as long only if the text is the string.
-/

namespace MiniFs.Library.Handler

/-! ## Attribute values -/

/-- The value of an attribute whose text begins behind its opening quote. Line ends become line
feeds, NUL is replaced, and the references to the markup characters are undone. Other references
are left alone. -/
def attributeValue : List UInt16 → List UInt16
  | [] => []
  | 34 :: _ => []
  | 13 :: 10 :: s => 10 :: attributeValue s
  | 13 :: s => 10 :: attributeValue s
  | 0 :: s => 0xFFFD :: attributeValue s
  | 38 :: 97 :: 109 :: 112 :: 59 :: s => 38 :: attributeValue s
  | 38 :: 108 :: 116 :: 59 :: s => 60 :: attributeValue s
  | 38 :: 103 :: 116 :: 59 :: s => 62 :: attributeValue s
  | c :: s => c :: attributeValue s

variable {c : UInt16} {s rest v : List UInt16}

theorem attributeValue_plain (hquote : c ≠ 34) (hcr : c ≠ 13) (hnul : c ≠ 0) (hamp : c ≠ 38) :
    attributeValue (c :: s) = c :: attributeValue s := by
  simp [attributeValue, hcr, hamp]

/-- A carriage return never comes through. -/
theorem attributeValue_cr (s : List UInt16) :
    ∃ s', attributeValue (13 :: s) = 10 :: s' ∧ s'.length ≤ (attributeValue s).length := by
  by_cases h : ∃ s', s = 10 :: s'
  · obtain ⟨s', rfl⟩ := h
    exact ⟨_, rfl, by simp [attributeValue]⟩
  · refine ⟨attributeValue s, ?_, Nat.le_refl _⟩
    cases s with
    | nil => rfl
    | cons d s =>
      have hd : d ≠ 10 := fun hd => h ⟨s, by rw [hd]⟩
      simp [attributeValue, hd]

/-! ## String literals -/

def hexDigit (c : UInt16) : Option ℕ :=
  if 48 ≤ c ∧ c ≤ 57 then some (c.toNat - 48)
  else if 97 ≤ c ∧ c ≤ 102 then some (c.toNat - 87)
  else if 65 ≤ c ∧ c ≤ 70 then some (c.toNat - 55)
  else none

def hexNumber (s : List UInt16) : Option ℕ :=
  if s = [] then none else s.foldlM (fun n c => (hexDigit c).map fun d => n * 16 + d) 0

def isOctalDigit (c : UInt16) : Bool := 48 ≤ c && c ≤ 55

/-- The one or two code units of a code point. -/
def utf16 (n : ℕ) : List UInt16 :=
  if n < 0x10000 then [UInt16.ofNat n]
  else
    [UInt16.ofNat (0xD800 + (n - 0x10000) / 0x400), UInt16.ofNat (0xDC00 + (n - 0x10000) % 0x400)]

/-- What one letter behind the backslash stands for. -/
def singleEscape (c : UInt16) : UInt16 :=
  if c = 98 then 8 else if c = 116 then 9 else if c = 110 then 10 else if c = 118 then 11
  else if c = 102 then 12 else if c = 114 then 13 else c

def hexEscape (n : ℕ) (s : List UInt16) : Option (List UInt16 × List UInt16) :=
  if s.length < n then none
  else (hexNumber (s.take n)).map fun value => ([UInt16.ofNat value], s.drop n)

def bracedEscape (s : List UInt16) : Option (List UInt16 × List UInt16) :=
  match s.dropWhile (· ≠ 125) with
  | [] => none
  | _ :: rest => (hexNumber (s.takeWhile (· ≠ 125))).bind fun value =>
    if value ≤ 0x10FFFF then some (utf16 value, rest) else none

/-- The octal digits behind the first one. At most three make a byte, if the first is below four. -/
def octalDigits (c : UInt16) (s : List UInt16) : List UInt16 :=
  (s.take (if c ≤ 51 then 2 else 1)).takeWhile isOctalDigit

/-- The escape behind a backslash: its value, and what follows it. -/
def escape : List UInt16 → Option (List UInt16 × List UInt16)
  | [] => none
  | c :: s =>
    -- a line end behind the backslash continues the literal
    if c = 13 ∧ s.head? = some 10 then some ([], s.tail)
    else if c = 10 ∨ c = 13 ∨ c = 0x2028 ∨ c = 0x2029 then some ([], s)
    else if c = 120 then hexEscape 2 s
    else if c = 117 ∧ s.head? = some 123 then bracedEscape s.tail
    else if c = 117 then hexEscape 4 s
    else if isOctalDigit c then
      some ([UInt16.ofNat ((c :: octalDigits c s).foldl (fun n d => n * 8 + (d.toNat - 48)) 0)],
        s.drop (octalDigits c s).length)
    else some ([singleEscape c], s)

/-- The literal up to its closing quote: its value, and what follows it. -/
def literal : ℕ → List UInt16 → Option (List UInt16 × List UInt16)
  | 0, _ => none
  | _ + 1, [] => none
  | n + 1, c :: s =>
    if c = 39 then some ([], s)
    else if c = 10 ∨ c = 13 then none
    else if c = 92 then
      (escape s).bind fun (v, rest) => (literal n rest).map fun (w, rest) => (v ++ w, rest)
    else (literal n s).map fun (w, rest) => (c :: w, rest)

def isLetter (c : UInt16) : Bool := (65 ≤ c && c ≤ 90) || (97 ≤ c && c ≤ 122)

/-- A call of a function with one literal, and nothing behind it: the name of the function and the
value of the literal. Blanks and comments between these are not accepted. -/
def call (code : List UInt16) : Option (List UInt16 × List UInt16) :=
  match code.dropWhile isLetter with
  | 40 :: 39 :: s =>
    match literal s.length s with
    | some (v, [41]) => some (code.takeWhile isLetter, v)
    | _ => none
  | _ => none

theorem length_utf16_le (n : ℕ) : (utf16 n).length ≤ 2 := by
  unfold utf16
  split_ifs <;> simp

theorem hexEscape_length {n : ℕ} (hn : 0 < n) (h : hexEscape n s = some (v, rest)) :
    v.length + rest.length ≤ s.length := by
  unfold hexEscape at h
  split_ifs at h with hlen
  obtain ⟨value, -, heq⟩ := Option.map_eq_some_iff.mp h
  cases heq
  rw [List.length_drop, List.length_singleton]
  omega

theorem bracedEscape_length (h : bracedEscape s = some (v, rest)) :
    v.length + rest.length ≤ s.length + 1 := by
  have hsplit : (s.takeWhile (· ≠ 125) ++ s.dropWhile (· ≠ 125)).length = s.length :=
    congrArg List.length List.takeWhile_append_dropWhile
  unfold bracedEscape at h
  split at h
  · cases h
  · next d rest' hdrop =>
    obtain ⟨value, -, heq⟩ := Option.bind_eq_some_iff.mp h
    split_ifs at heq with hle
    cases heq
    have htwo := length_utf16_le value
    rw [hdrop, List.length_append, List.length_cons] at hsplit
    omega

/-- An escape is at least as long as its value, the backslash not counted. -/
theorem escape_length (h : escape s = some (v, rest)) : v.length + rest.length ≤ s.length := by
  unfold escape at h
  split at h
  · cases h
  · next c s =>
    rw [List.length_cons]
    split_ifs at h with hcrlf hend hx hbrace hu hoctal
    · cases h
      rw [List.length_nil, List.length_tail]
      omega
    · cases h
      rw [List.length_nil]
      omega
    · have hlen := hexEscape_length (by decide) h
      omega
    · have hlen := bracedEscape_length h
      have hpos : s ≠ [] := by
        rintro rfl
        cases hbrace.2
      have hpos := List.length_pos_iff.mpr hpos
      rw [List.length_tail] at hlen
      omega
    · have hlen := hexEscape_length (by decide) h
      omega
    · cases h
      rw [List.length_drop, List.length_singleton]
      omega
    · cases h
      rw [List.length_singleton]
      omega

/-- What a literal spells without escapes. -/
def Spelled (v : List UInt16) : Prop := ∀ c ∈ v, c ≠ 39 ∧ c ≠ 10 ∧ c ≠ 13 ∧ c ≠ 92

/-- A literal is longer than its value by the closing quote, and by more unless it spells it. -/
theorem literal_length {n : ℕ} (h : literal n s = some (v, rest)) :
    v.length + rest.length + 1 ≤ s.length ∧
      (s.length ≤ v.length + rest.length + 1 → s = v ++ 39 :: rest ∧ Spelled v) := by
  induction n generalizing s v rest with
  | zero => cases h
  | succ n ih =>
    cases s with
    | nil => cases h
    | cons c s =>
      rw [literal] at h
      rw [List.length_cons]
      split_ifs at h with hquote hend hescape
      · cases h
        rw [hquote]
        exact ⟨by simp, fun _ => ⟨rfl, List.forall_mem_nil _⟩⟩
      · obtain ⟨⟨v', rest'⟩, hesc, htail⟩ := Option.bind_eq_some_iff.mp h
        obtain ⟨⟨w, rest''⟩, hlit, heq⟩ := Option.map_eq_some_iff.mp htail
        cases heq
        have hfirst := escape_length hesc
        have hrest := (ih hlit).1
        rw [List.length_append]
        constructor
        · omega
        · intro hle
          omega
      · obtain ⟨⟨w, rest'⟩, hlit, heq⟩ := Option.map_eq_some_iff.mp h
        cases heq
        obtain ⟨hle, hsame⟩ := ih hlit
        rw [List.length_cons]
        refine ⟨by omega, fun hge => ?_⟩
        obtain ⟨rfl, hspelled⟩ := hsame (by omega)
        obtain ⟨hlf, hcr⟩ := not_or.mp hend
        exact ⟨rfl, List.forall_mem_cons.mpr ⟨⟨hquote, hlf, hcr, hescape⟩, hspelled⟩⟩

theorem literal_spelled {n : ℕ} (h : Spelled v) (hn : v.length < n) :
    literal n (v ++ 39 :: rest) = some (v, rest) := by
  induction v generalizing n with
  | nil =>
    obtain ⟨n, rfl⟩ := Nat.exists_eq_succ_of_ne_zero (Nat.ne_of_gt hn)
    rfl
  | cons c v ih =>
    obtain ⟨n, rfl⟩ := Nat.exists_eq_succ_of_ne_zero (Nat.ne_of_gt (Nat.zero_lt_of_lt hn))
    obtain ⟨⟨hquote, hlf, hcr, hescape⟩, hv⟩ := List.forall_mem_cons.mp h
    rw [List.length_cons] at hn
    rw [List.cons_append, literal, if_neg hquote, if_neg (not_or.mpr ⟨hlf, hcr⟩), if_neg hescape,
      ih hv (by omega)]
    rfl

theorem call_iff {callee : List UInt16} (h : ∀ c ∈ callee, isLetter c = true) :
    call (callee ++ 40 :: 39 :: s) = some (callee, v) ↔ literal s.length s = some (v, [41]) := by
  have hdrop : (callee ++ 40 :: 39 :: s).dropWhile isLetter = 40 :: 39 :: s := by
    rw [List.dropWhile_append_of_pos h, List.dropWhile_cons_of_neg (by decide)]
  have htake : (callee ++ 40 :: 39 :: s).takeWhile isLetter = callee := by
    rw [List.takeWhile_append_of_pos h, List.takeWhile_cons_of_neg (by decide), List.append_nil]
  simp only [call, hdrop, htake]
  constructor
  · intro hcall
    split at hcall
    · next w hlit =>
      rw [hlit, (Prod.mk.inj (Option.some.inj hcall)).2]
    · cases hcall
  · intro hlit
    rw [hlit]
    rfl

/-- A text that spells its literal. -/
theorem call_spelled {callee : List UInt16} (h : ∀ c ∈ callee, isLetter c = true) (hv : Spelled v) :
    call (callee ++ 40 :: 39 :: (v ++ [39, 41])) = some (callee, v) := by
  rw [call_iff h]
  exact literal_spelled hv (by simp)

/-- No other text as short gives that literal. -/
theorem spelled_of_call {callee : List UInt16} (h : ∀ c ∈ callee, isLetter c = true)
    (hcall : call (callee ++ 40 :: 39 :: s) = some (callee, v)) (hlen : s.length ≤ v.length + 2) :
    s = v ++ [39, 41] ∧ Spelled v :=
  (literal_length ((call_iff h).mp hcall)).2 hlen

end MiniFs.Library.Handler

import MiniFs.Simulator.CommandLine
import MiniFs.Library.Handler

/-! # The file list of the page (`refreshFileList`)

Each row has four buttons. The code of a button is a text in an attribute, with the file's name in
a string literal; `esc` takes the markup characters out of it.
-/

set_option autoImplicit false

namespace MiniFs.Simulator
open Library Library.Handler

/-- `s.replace(/c/g, by)` -/
def replaceAll (c : UInt16) (by_ s : JsString) : JsString :=
  s.flatMap fun x => if x = c then by_ else [x]

def esc (s : JsString) : JsString :=
  replaceAll 62 (js ['&', 'g', 't', ';'])
    (replaceAll 60 (js ['&', 'l', 't', ';']) (replaceAll 38 (js ['&', 'a', 'm', 'p', ';']) s))

/-- What stands behind `onclick="`, the closing quote included: a call of `callee` with the text
`before` and the name as its argument. -/
def onclick (callee before name : JsString) : JsString :=
  callee ++ 40 :: 39 :: (before ++ (esc name ++ [39, 41, 34]))

def openInlineRead : JsString :=
  js ['o', 'p', 'e', 'n', 'I', 'n', 'l', 'i', 'n', 'e', 'R', 'e', 'a', 'd']

def openInlineEditor : JsString :=
  js ['o', 'p', 'e', 'n', 'I', 'n', 'l', 'i', 'n', 'e', 'E', 'd', 'i', 't', 'o', 'r']

def runCmd : JsString := js ['r', 'u', 'n', 'C', 'm', 'd']

def statLine : JsString := js ['s', 't', 'a', 't', ' ']

def rmLine : JsString := js ['r', 'm', ' ']

/-- A row: the texts of its cells, and the code of its buttons. -/
structure FileRow where
  name : JsString
  inode : ℕ
  size : ℕ
  blocks : ℕ
  mode : List Char
  mtime : JsString
  /-- `openInlineRead('${esc(file.name)}')` -/
  read : JsString
  /-- `openInlineEditor('${esc(file.name)}')` -/
  editor : JsString
  /-- `runCmd('stat ${esc(file.name)}')` -/
  stat : JsString
  /-- `runCmd('rm ${esc(file.name)}')` -/
  rm : JsString

def fileRow (file : File) : FileRow where
  name := esc file.name
  inode := file.inode
  size := file.size
  blocks := file.blocks.length
  mode := modeStr file.mode
  mtime := file.mtime
  read := onclick openInlineRead [] file.name
  editor := onclick openInlineEditor [] file.name
  stat := onclick runCmd statLine file.name
  rm := onclick runCmd rmLine file.name

inductive FileList where
  /-- "Henüz dosya yok" -/
  | noFiles
  /-- "'${esc(filterQuery)}' için sonuç yok" -/
  | noResult
  | rows (rows : List FileRow)

/-- `shown` says which names the search box keeps; an empty one keeps all. -/
def refreshFileList (shown : JsString → Bool) (fs : FS) : FileList :=
  let files := fs.files.filter fun f => shown f.name
  if files = [] then
    if fs.files = [] then .noFiles else .noResult
  else .rows (files.map fileRow)

variable {c : UInt16} {name s : JsString}

/-! ## Names in attributes -/

theorem esc_cons (c : UInt16) (s : JsString) :
    esc (c :: s) = (if c = 38 then js ['&', 'a', 'm', 'p', ';']
      else if c = 60 then js ['&', 'l', 't', ';']
      else if c = 62 then js ['&', 'g', 't', ';'] else [c]) ++ esc s := by
  simp only [esc, replaceAll, List.flatMap_cons, List.flatMap_append]
  congr 1
  by_cases hamp : c = 38
  · rw [if_pos hamp, if_pos hamp]
    rfl
  · by_cases hlt : c = 60
    · rw [if_neg hamp, if_neg hamp, if_pos hlt, hlt]
      rfl
    · simp [hamp, hlt]

/-- The references `esc` writes are undone in the attribute. -/
theorem attributeValue_esc_cons (hquote : c ≠ 34) (hcr : c ≠ 13) (hnul : c ≠ 0) :
    attributeValue (esc (c :: name) ++ s) = c :: attributeValue (esc name ++ s) := by
  rw [esc_cons]
  split_ifs with hamp hlt hgt
  · rw [hamp]
    rfl
  · rw [hlt]
    rfl
  · rw [hgt]
    rfl
  · exact attributeValue_plain hquote hcr hnul hamp

theorem attributeValue_esc (h : ∀ c ∈ name, c ≠ 34 ∧ c ≠ 13 ∧ c ≠ 0) :
    attributeValue (esc name ++ s) = name ++ attributeValue s := by
  induction name with
  | nil => rfl
  | cons c name ih =>
    obtain ⟨⟨hquote, hcr, hnul⟩, hname⟩ := List.forall_mem_cons.mp h
    rw [attributeValue_esc_cons hquote hcr hnul, ih hname, List.cons_append]

/-- No name becomes longer, and one that comes back unchanged has no character that ends the
attribute or is replaced in it. -/
theorem attributeValue_esc_length (name s : JsString) :
    (attributeValue (esc name ++ s)).length ≤ name.length + (attributeValue s).length ∧
      (attributeValue (esc name ++ s) = name ++ attributeValue s →
        ∀ c ∈ name, c ≠ 34 ∧ c ≠ 13 ∧ c ≠ 0) := by
  induction name with
  | nil => exact ⟨Nat.le_add_left _ _, fun _ => List.forall_mem_nil _⟩
  | cons c name ih =>
    obtain ⟨hle, hkept⟩ := ih
    rw [List.length_cons]
    by_cases hquote : c = 34
    · rw [hquote]
      exact ⟨Nat.zero_le _, fun h => absurd h (List.cons_ne_nil _ _).symm⟩
    by_cases hcr : c = 13
    · obtain ⟨s', hvalue, hs'⟩ := attributeValue_cr (esc name ++ s)
      have hsplit : esc (13 :: name) ++ s = 13 :: (esc name ++ s) := rfl
      rw [hcr, hsplit, hvalue, List.length_cons]
      refine ⟨by omega, fun h => ?_⟩
      exact absurd (List.cons.inj h).1 (by decide)
    by_cases hnul : c = 0
    · have hsplit : attributeValue (esc (0 :: name) ++ s) =
          0xFFFD :: attributeValue (esc name ++ s) := rfl
      rw [hnul, hsplit, List.length_cons]
      refine ⟨by omega, fun h => ?_⟩
      exact absurd (List.cons.inj h).1 (by decide)
    · rw [attributeValue_esc_cons hquote hcr hnul, List.length_cons, List.cons_append]
      refine ⟨by omega, fun h => ?_⟩
      exact List.forall_mem_cons.mpr ⟨⟨hquote, hcr, hnul⟩, hkept (List.cons.inj h).2⟩

/-! ## Names in the code of a button -/

/-- Neither the attribute nor the string literal changes the character. -/
structure Kept (c : UInt16) : Prop where
  nul : c ≠ 0
  lf : c ≠ 10
  cr : c ≠ 13
  double : c ≠ 34
  single : c ≠ 39
  backslash : c ≠ 92

theorem Kept.not_isQuote {c : UInt16} (h : Kept c) : isQuote c = false := by
  simp [isQuote, h.double, h.single]

/-- What stands before the name in the code of a button. -/
def isLabel (c : UInt16) : Bool := isLetter c || c = 32

theorem Kept.of_isLabel (h : isLabel c = true) : Kept c ∧ c ≠ 38 := by
  refine ⟨⟨?_, ?_, ?_, ?_, ?_, ?_⟩, ?_⟩ <;>
    · rintro rfl
      revert h
      decide

theorem attributeValue_label {w : JsString} (h : ∀ c ∈ w, isLabel c = true) :
    attributeValue (w ++ s) = w ++ attributeValue s := by
  induction w with
  | nil => rfl
  | cons c w ih =>
    obtain ⟨hc, hw⟩ := List.forall_mem_cons.mp h
    obtain ⟨hkept, hamp⟩ := Kept.of_isLabel hc
    rw [List.cons_append, attributeValue_plain hkept.double hkept.cr hkept.nul hamp, ih hw,
      List.cons_append]

/-- The code of a button is the call that was meant exactly if nothing in the name is changed. -/
theorem call_onclick_iff {callee before : JsString} (hcallee : callee.all isLetter = true)
    (hbefore : before.all isLabel = true) :
    call (attributeValue (onclick callee before name)) = some (callee, before ++ name) ↔
      ∀ c ∈ name, Kept c := by
  rw [List.all_eq_true] at hcallee hbefore
  have hlabel : ∀ c ∈ callee, isLabel c = true := fun c hc => by simp [isLabel, hcallee c hc]
  have hvalue : attributeValue (onclick callee before name) =
      callee ++ 40 :: 39 :: (before ++ attributeValue (esc name ++ [39, 41, 34])) := by
    rw [onclick, attributeValue_label hlabel, attributeValue_plain, attributeValue_plain,
      attributeValue_label hbefore] <;> decide
  obtain ⟨hle, hkept⟩ := attributeValue_esc_length name [39, 41, 34]
  rw [hvalue]
  constructor
  · intro hcall
    obtain ⟨htext, hspelled⟩ := spelled_of_call hcallee hcall (by
      rw [List.length_append, List.length_append]
      exact Nat.add_le_add_left hle _)
    rw [List.append_assoc] at htext
    have hname := hkept (List.append_cancel_left htext)
    intro c hc
    obtain ⟨hquote, hlf, hcr, hescape⟩ := hspelled c (List.mem_append_right _ hc)
    exact ⟨(hname c hc).2.2, hlf, hcr, (hname c hc).1, hquote, hescape⟩
  · intro h
    have htail : attributeValue [39, 41, 34] = [39, 41] := rfl
    rw [attributeValue_esc fun c hc => ⟨(h c hc).double, (h c hc).cr, (h c hc).nul⟩, htail,
      ← List.append_assoc]
    apply call_spelled hcallee
    intro c hc
    have hc : Kept c := (List.mem_append.mp hc).elim
      (fun hc => (Kept.of_isLabel (hbefore c hc)).1) (h c)
    exact ⟨hc.single, hc.lf, hc.cr, hc.backslash⟩

end MiniFs.Simulator

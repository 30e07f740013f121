import MiniFs.Simulator.CommandLine
import MiniFs.Simulator.Accounting
import Mathlib.Tactic.Ring

/-! # States that command lines reach

Before a `format` there are no files. Behind one, every name can be given to a file, in quotes.
-/

set_option autoImplicit false

namespace MiniFs.Simulator
open Library Library.Words Library.Quoted

variable {fs fs' : FS} {ts name : JsString} {f : File}

/-! ## What a line can do -/

theorem perform_unformatted (hfmt : fs.formatted = false) (ts : JsString) (op : Op) :
    (perform ts op fs).2 = fs := by
  cases op <;> simp [perform, fsCreate, fsWrite, fsAppend, fsRead, fsRename, fsCopy, fsTruncate,
    fsChmod, fsDelete, hfmt]

theorem fsFormat_cases (ts : JsString) (totalSize blockSize : ℤ) (fs : FS) :
    (fsFormat ts totalSize blockSize fs).2 = fs ∨
      (fsFormat ts totalSize blockSize fs).2 = emptyFS ts totalSize blockSize := by
  rw [fsFormat]
  split_ifs
  · exact .inl rfl
  · dsimp only
    split_ifs
    · exact .inl rfl
    · exact .inl rfl
    · exact .inr rfl

def Command.call : Command → Option Op
  | .op call => some call
  | .chmod name modeOctal => some (.chmod name (modeOctal.getD 0))
  | .truncate name newSize => some (.truncate name (newSize.getD 0))
  | _ => none

/-- A command leaves the state alone, formats it, or makes the step of an operation. -/
theorem execute_cases {cmd : Command} {answer : Answer}
    (h : execute ts cmd fs = some (answer, fs')) :
    fs' = fs ∨ (∃ totalSize blockSize, fs' = emptyFS ts totalSize blockSize) ∨
      ∃ op ok, cmd.call = some op ∧ fs.formatted = true ∧ Step ts fs op ok fs' := by
  have hop (op : Op) (hcall : cmd.call = some op) (hstate : (perform ts op fs).2 = fs') :
      fs' = fs ∨ (∃ totalSize blockSize, fs' = emptyFS ts totalSize blockSize) ∨
        ∃ op ok, cmd.call = some op ∧ fs.formatted = true ∧ Step ts fs op ok fs' := by
    cases hfmt : fs.formatted with
    | false => exact .inl (hstate.symm.trans (perform_unformatted hfmt ts op))
    | true => exact .inr (.inr ⟨op, _, hcall, rfl, hstate ▸ perform_step hfmt ts op⟩)
  cases cmd with
  | op op => exact hop op rfl (Prod.mk.inj (Option.some.inj h)).2
  | chmod name mode =>
    exact hop (.chmod name (mode.getD 0)) rfl (Prod.mk.inj (Option.some.inj h)).2
  | truncate name size =>
    exact hop (.truncate name (size.getD 0)) rfl (Prod.mk.inj (Option.some.inj h)).2
  | format totalSize blockSize =>
    cases totalSize with
    | none => cases h
    | some totalSize =>
      cases blockSize with
      | none => cases h
      | some blockSize =>
        have hstate : (fsFormat ts totalSize blockSize fs).2 = fs' :=
          (Prod.mk.inj (Option.some.inj h)).2
        obtain hsame | hempty := fsFormat_cases ts totalSize blockSize fs
        · exact .inl (hstate.symm.trans hsame)
        · exact .inr (.inl ⟨totalSize, blockSize, hstate.symm.trans hempty⟩)
  | _ => exact .inl (Prod.mk.inj (Option.some.inj h)).2.symm

/-- Before a `format` was accepted there are no files. -/
theorem files_nil_of_reachable (h : Reachable fs) (hfmt : fs.formatted = false) :
    fs.files = [] := by
  induction h with
  | start => rfl
  | run _ hrun ih =>
    obtain rfl | ⟨_, _, rfl⟩ | ⟨_, _, _, hold, hstep⟩ := execute_cases hrun
    · exact ih hfmt
    · rfl
    · rw [hstep.sameLayout.formatted, hold] at hfmt
      exact absurd hfmt.symm Bool.false_ne_true

theorem formatted_of_find (h : Reachable fs) (hf : fs.find name = some f) :
    fs.formatted = true := by
  by_contra hfmt
  have hnil := files_nil_of_reachable h (by simpa using hfmt)
  have hmem := mem_of_find hf
  rw [hnil] at hmem
  exact absurd hmem List.not_mem_nil

/-! ## Names and numbers in a line -/

/-- A name with quotes of the other kind around each character. -/
def quoted (name : JsString) : JsString :=
  name.flatMap fun c => if c = 34 then [39, c, 39] else [34, c, 34]

theorem scan_quotedName (name cur l : JsString) :
    scan isSeparator isQuote none cur (quoted name ++ l) =
      scan isSeparator isQuote none (cur ++ name) l := by
  induction name generalizing cur with
  | nil => rw [List.append_nil]; rfl
  | cons c name ih =>
    have hstep : scan isSeparator isQuote none cur (quoted (c :: name) ++ l) =
        scan isSeparator isQuote none (cur ++ [c]) (quoted name ++ l) := by
      rw [quoted, List.flatMap_cons, List.append_assoc]
      split_ifs with hc
      · rw [hc]
        rfl
      · simp [scan, isQuote, hc, quoted]
    rw [hstep, ih, List.append_assoc, List.singleton_append]

theorem quoted_last (name : JsString) : ∀ c ∈ (quoted name).getLast?, isWhiteSpace c = false := by
  obtain rfl | ⟨name, b, rfl⟩ := List.eq_nil_or_concat name
  · simp [quoted]
  · rw [quoted, List.concat_eq_append, List.flatMap_append, List.getLast?_append]
    simp only [List.flatMap_cons, List.flatMap_nil, List.append_nil]
    split_ifs <;> simp <;> decide

theorem quoted_ne_nil (hne : name ≠ []) : quoted name ≠ [] := by
  obtain ⟨c, name, rfl⟩ := List.exists_cons_of_ne_nil hne
  rw [quoted, List.flatMap_cons]
  split_ifs <;> simp

theorem smartSplit_quoted (hne : name ≠ []) : smartSplit (quoted name) = [name] := by
  have hscan := scan_quotedName name [] []
  rw [List.append_nil] at hscan
  rw [smartSplit_eq, hscan, List.nil_append, scan, flush, if_neg hne]

theorem smartSplit_quoted_cons (hne : name ≠ []) (s : JsString) :
    smartSplit (quoted name ++ 32 :: s) = name :: smartSplit s := by
  rw [smartSplit_eq, scan_quotedName, List.nil_append, scan, if_neg (by decide), if_pos (by decide),
    flush, if_neg hne, List.singleton_append, smartSplit_eq]

def powerOfTen (k : ℕ) : JsString := 49 :: List.replicate k 48

theorem mem_powerOfTen {k : ℕ} {c : UInt16} (h : c ∈ powerOfTen k) : c = 49 ∨ c = 48 := by
  obtain rfl | h := List.mem_cons.mp h
  · exact .inl rfl
  · exact .inr (List.eq_of_mem_replicate h)

theorem leadingDigits_zeros (k : ℕ) :
    leadingDigits 10 (List.replicate k 48) = List.replicate k 0 := by
  induction k with
  | zero => rfl
  | succ k ih =>
    rw [List.replicate_succ, List.replicate_succ, ← ih]
    rfl

theorem foldl_zeros (k n : ℕ) :
    (List.replicate k 0).foldl (fun n d => n * 10 + d) n = n * 10 ^ k := by
  induction k generalizing n with
  | zero => simp
  | succ k ih =>
    rw [List.replicate_succ, List.foldl_cons, ih, pow_succ]
    ring

theorem parseInt_powerOfTen (k : ℕ) : parseInt (powerOfTen k) 0 = some (10 ^ k : ℤ) := by
  have hdrop : (powerOfTen k).dropWhile isWhiteSpace = powerOfTen k :=
    List.dropWhile_cons_of_neg (by decide)
  have hhead : (powerOfTen k).head? = some 49 := rfl
  have hdigits : leadingDigits 10 (powerOfTen k) = 1 :: List.replicate k 0 := by
    rw [powerOfTen, ← leadingDigits_zeros]
    rfl
  simp +decide only [parseInt, hdrop, hhead, Option.some.injEq, if_false, false_and,
    and_false, if_true, hdigits, List.foldl_cons]
  rw [if_neg (List.cons_ne_nil _ _), foldl_zeros]
  simp

/-! ## A page with one file -/

def createLine (name : JsString) : JsString :=
  js ['c', 'r', 'e', 'a', 't', 'e'] ++ 32 :: quoted name

/-- Every name can be given in quotes. -/
theorem parse_createLine (hne : name ≠ []) :
    parseCommand (createLine name) = .op (.create name) := by
  rw [createLine, parseCommand_eq (by decide) (by decide) (quoted_ne_nil hne) (quoted_last name),
    smartSplit_quoted hne]
  simp +decide only [parseParts, if_true, if_false]

def writeLine (name : JsString) : JsString :=
  js ['w', 'r', 'i', 't', 'e'] ++ 32 :: (quoted name ++ [32, 120])

theorem parse_writeLine (hne : name ≠ []) :
    parseCommand (writeLine name) = .op (.write name [120]) := by
  rw [writeLine, parseCommand_eq (by decide) (by decide) (by simp) (by simp; decide),
    smartSplit_quoted_cons hne]
  simp +decide only [parseParts, if_true, if_false]
  rfl

def formatLine (k : ℕ) : JsString :=
  js ['f', 'o', 'r', 'm', 'a', 't'] ++ 32 :: (powerOfTen (k + 2) ++ 32 :: powerOfTen k)

theorem parse_formatLine (k : ℕ) :
    parseCommand (formatLine k) = .format (some (10 ^ (k + 2))) (some (10 ^ k)) := by
  have hplain (k : ℕ) : ∀ c ∈ powerOfTen k, isQuote c = false ∧ isSeparator c = false := by
    intro c hc
    obtain rfl | rfl := mem_powerOfTen hc <;> decide
  have hne : powerOfTen k ≠ [] := List.cons_ne_nil _ _
  have hlast : ∀ c ∈ (powerOfTen (k + 2) ++ 32 :: powerOfTen k).getLast?,
      isWhiteSpace c = false := by
    intro c hc
    rw [List.append_cons, List.getLast?_append_of_ne_nil _ hne] at hc
    obtain rfl | rfl := mem_powerOfTen (List.mem_of_getLast? hc) <;> decide
  rw [formatLine, parseCommand_eq (by decide) (by decide) (by simp) hlast,
    smartSplit_word (hplain _) (List.cons_ne_nil _ _), smartSplit_single hne (hplain k)]
  simp +decide only [parseParts, if_true, if_false, parseInt_powerOfTen]

theorem formattable_powerOfTen {k : ℕ} (hk : 3 ≤ k) :
    Formattable (10 ^ (k + 2)) (10 ^ k) := by
  have hpos : (0 : ℤ) < 10 ^ k := pow_pos (by decide) k
  have hlarge : (10 : ℤ) ^ 3 ≤ 10 ^ k := pow_le_pow_right₀ (by decide) hk
  have htotal : (10 : ℤ) ^ (k + 2) / 10 ^ k = 100 := by
    rw [pow_add, Int.mul_ediv_cancel_left _ hpos.ne']
    rfl
  have hbitmap : ceilDiv 100 (10 ^ k * 8) ≤ 1 := ceilDiv_le (by omega) (by omega)
  refine ⟨by omega, ?_⟩
  rw [Simulator.bitmapBlocks, Simulator.inodeBlocks, htotal, max_eq_left hbitmap]
  decide

theorem run_formatLine {k : ℕ} (hk : 3 ≤ k) :
    ∃ answer, parseAndRun [] (formatLine k) FS.start =
      some (answer, emptyFS [] (10 ^ (k + 2)) (10 ^ k)) := by
  obtain ⟨msg, hmsg⟩ := fsFormat_accepts (formattable_powerOfTen hk) [] FS.start
  refine ⟨.reply ⟨true, msg⟩, ?_⟩
  rw [parseAndRun, parse_formatLine, execute, hmsg]

theorem run_createLine {totalSize blockSize : ℤ} (hformat : Formattable totalSize blockSize)
    (hne : name ≠ []) (hlen : name.length < 32) :
    ∃ answer, parseAndRun [] (createLine name) (emptyFS [] totalSize blockSize) =
      some (answer, (emptyFS [] totalSize blockSize).push
        (newFile [] (emptyFS [] totalSize blockSize) name 0o100644)) := by
  have hfree : 0 < (emptyFS [] totalSize blockSize).superblock.freeInodes :=
    maxInodes_pos hformat.inode_le totalSize
  have hnew : ¬((emptyFS [] totalSize blockSize).find name).isSome = true := Bool.false_ne_true
  refine ⟨.reply ⟨true, .created name 0⟩, ?_⟩
  rw [parseAndRun, parse_createLine hne, execute, perform, fsCreate, if_neg (by simp [emptyFS]),
    if_neg (Nat.not_le.mpr hlen), if_neg hnew, if_neg (Int.not_le.mpr hfree)]
  rfl

/-- A page with one file and room for `n` characters in it. -/
structure OneFile (name : JsString) (n : ℕ) (fs : FS) (f : File) : Prop where
  reachable : Reachable fs
  files : fs.files = [f]
  name_eq : f.name = name
  free : 1 ≤ fs.superblock.freeBlocks + f.blocks.length
  oneBlock : ∀ m ≤ n, needed fs m = 1

theorem OneFile.room {n m : ℕ} (h : OneFile name n fs f) (hm : m ≤ n) :
    Room fs f.blocks.length m := by
  have hneeded := h.oneBlock m hm
  have hfree := h.free
  constructor <;> omega

theorem OneFile.find {n : ℕ} (h : OneFile name n fs f) : fs.find name = some f := by
  rw [FS.find, h.files, List.find?_cons_of_pos (by simpa using h.name_eq)]

theorem needed_eq_one {n : ℕ} (h : (n : ℤ) ≤ fs.superblock.blockSize)
    (hpos : 0 < fs.superblock.blockSize) : needed fs n = 1 :=
  max_eq_left (ceilDiv_le hpos (by omega))

theorem exists_oneFile (hne : name ≠ []) (hlen : name.length < 32) (n : ℕ) :
    ∃ fs f, OneFile name n fs f ∧ f.content = [] := by
  have hformat := formattable_powerOfTen (k := n + 3) (Nat.le_add_left 3 n)
  have hblocks := hformat.room
  have hsmall : (n : ℤ) < 10 ^ (n + 3) := by
    exact_mod_cast (Nat.lt_pow_self (by decide : 1 < 10)).trans_le
      (Nat.pow_le_pow_right (by decide) (Nat.le_add_right n 3))
  obtain ⟨_, hrun⟩ := run_formatLine (k := n + 3) (Nat.le_add_left 3 n)
  obtain ⟨_, hcreate⟩ := run_createLine hformat hne hlen
  refine ⟨_, _, ⟨.run (.run .start hrun) hcreate, rfl, rfl, ?_, ?_⟩, rfl⟩
  · change 1 ≤ 10 ^ (n + 3 + 2) / 10 ^ (n + 3) - _ + _
    omega
  · intro m hm
    have hsize : (m : ℤ) ≤ 10 ^ (n + 3) := by omega
    exact needed_eq_one hsize (pow_pos (by decide) _)

end MiniFs.Simulator

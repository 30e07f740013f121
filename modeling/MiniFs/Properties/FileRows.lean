import MiniFs.Simulator.FileList
import MiniFs.Simulator.Session

/-! # The buttons of the file rows

A button acts on its file if the name is one word without quotes, backslashes, line ends and NUL
and does not end in white space. Such names stay such names in every run that gives no others.
-/

set_option autoImplicit false

namespace MiniFs.Properties
open Simulator Library Library.Words Library.Quoted Library.Handler

/-- The code of the buttons are the calls with the file's name, and the two command lines are
read as the calls for the file. -/
structure RowActs (row : FileRow) (name : JsString) : Prop where
  read : call (attributeValue row.read) = some (openInlineRead, name)
  editor : call (attributeValue row.editor) = some (openInlineEditor, name)
  stat : call (attributeValue row.stat) = some (runCmd, statLine ++ name)
  rm : call (attributeValue row.rm) = some (runCmd, rmLine ++ name)
  statCall : parseCommand (statLine ++ name) = .stat name
  rmCall : parseCommand (rmLine ++ name) = .op (.delete name)

/-- Every row of the list, whatever is searched for, acts on its file. -/
def RowsAct (fs : FS) : Prop :=
  ∀ shown rows, refreshFileList shown fs = .rows rows →
    List.Forall₂ (fun row file => RowActs row file.name) rows
      (fs.files.filter fun f => shown f.name)

/-- A word that needs no quotes and no escapes. -/
structure PlainName (name : JsString) : Prop where
  ne_nil : name ≠ []
  kept : ∀ c ∈ name, Kept c
  word : ∀ c ∈ name, isSeparator c = false
  last : ∀ c ∈ name.getLast?, isWhiteSpace c = false

variable {fs fs' : FS} {ts name : JsString} {f : File} {answer : Answer}

/-! ## Names in command lines -/

/-- A plain name is the only argument of a command. -/
theorem parseCommand_plain {word : JsString} (hne : word ≠ []) (hword : word.all isPlain = true)
    (h : PlainName name) : parseCommand (word ++ 32 :: name) = parseParts [word, name] := by
  rw [parseCommand_eq hne hword h.ne_nil h.last,
    smartSplit_single h.ne_nil fun c hc => ⟨(h.kept c hc).not_isQuote, h.word c hc⟩]

theorem parse_statLine (h : PlainName name) : parseCommand (statLine ++ name) = .stat name := by
  have hne : js ['s', 't', 'a', 't'] ≠ [] := by decide
  refine (parseCommand_plain hne (by decide) h).trans ?_
  simp +decide only [parseParts, if_true, if_false]

theorem parse_rmLine (h : PlainName name) :
    parseCommand (rmLine ++ name) = .op (.delete name) := by
  have hne : js ['r', 'm'] ≠ [] := by decide
  refine (parseCommand_plain hne (by decide) h).trans ?_
  simp +decide only [parseParts, if_true, if_false]

/-- No other name comes back from the line of `stat`. -/
theorem plainName_of_parse (hkept : ∀ c ∈ name, Kept c)
    (h : parseCommand (statLine ++ name) = .stat name) : PlainName name := by
  obtain ⟨word, hparts, hstat⟩ := parseParts_stat h
  have hquote : ∀ c ∈ trim (statLine ++ name), isQuote c = false := by
    intro c hc
    obtain hc | hc := List.mem_append.mp (mem_of_mem_trim hc)
    · have hlabel : statLine.all isLabel = true := by decide
      exact (Kept.of_isLabel (List.all_eq_true.mp hlabel c hc)).1.not_isQuote
    · exact (hkept c hc).not_isQuote
  have hweight : weight (scan isSeparator isQuote none [] (trim (statLine ++ name))) + _ ≤ _ :=
    weight_scan_le none [] (trim (statLine ++ name))
  rw [smartSplit_eq] at hparts
  rw [hparts, weight_cons, weight_cons] at hweight
  rw [scan_eq_words hquote (List.forall_mem_nil _), List.nil_append] at hparts
  have hname : IsWord isSeparator name :=
    isWord_of_mem (by rw [hparts]; exact List.mem_cons_of_mem _ List.mem_cons_self)
  refine ⟨hname.1, hkept, hname.2, ?_⟩
  intro c hc
  by_contra hspace
  have hlast : c ∈ (statLine ++ name).getLast? := by
    rwa [List.getLast?_append_of_ne_nil _ hname.1]
  have hlen := length_trim_lt hlast (by simpa using hspace)
  have hword : word.length = 4 := by
    have hlength := congrArg List.length hstat
    rwa [toLowerCase, List.length_map] at hlength
  have hline : (statLine ++ name).length = 5 + name.length := List.length_append
  simp only [List.length_nil] at hweight
  omega

/-- A row acts on its file exactly if the name is plain. -/
theorem rowActs_iff (f : File) : RowActs (fileRow f) f.name ↔ PlainName f.name := by
  constructor
  · intro h
    exact plainName_of_parse ((call_onclick_iff (by decide) (by decide)).mp h.read) h.statCall
  · intro h
    refine ⟨?_, ?_, ?_, ?_, parse_statLine h, parse_rmLine h⟩
    · exact (call_onclick_iff (by decide) (by decide)).mpr h.kept
    · exact (call_onclick_iff (by decide) (by decide)).mpr h.kept
    · exact (call_onclick_iff (by decide) (by decide)).mpr h.kept
    · exact (call_onclick_iff (by decide) (by decide)).mpr h.kept

theorem rowsAct_iff (fs : FS) : RowsAct fs ↔ ∀ f ∈ fs.files, PlainName f.name := by
  constructor
  · intro h f hf
    have hall : (fs.files.filter fun f => (fun _ => true) f.name) = fs.files :=
      List.filter_eq_self.mpr fun _ _ => rfl
    have hrows : refreshFileList (fun _ => true) fs = .rows (fs.files.map fileRow) := by
      rw [refreshFileList]
      simp only [hall]
      exact if_neg (List.ne_nil_of_mem hf)
    have hacts := h _ _ hrows
    rw [hall, List.forall₂_map_left_iff, List.forall₂_same] at hacts
    exact (rowActs_iff f).mp (hacts f hf)
  · intro h shown rows hrows
    rw [refreshFileList] at hrows
    split_ifs at hrows
    cases hrows
    rw [List.forall₂_map_left_iff, List.forall₂_same]
    exact fun f hf => (rowActs_iff f).mpr (h f (List.mem_of_mem_filter hf))

/-! ## Names in runs -/

def givenName : Op → Option JsString
  | .create name => some name
  | .rename _ newName => some newName
  | .copy _ dst => some dst
  | _ => none

/-- The runs whose lines give plain names only. -/
inductive PlainRun : FS → Prop
  | start : PlainRun FS.start
  | run {fs fs' : FS} {ts raw : JsString} {answer : Answer} (h : PlainRun fs)
      (hgiven : ∀ op, (parseCommand raw).call = some op → ∀ name ∈ givenName op, PlainName name)
      (hrun : parseAndRun ts raw fs = some (answer, fs')) : PlainRun fs'

/-- A file that was replaced by one with the same name. -/
theorem name_of_mem_assign {f₁ x : File} (hf₁ : fs.find name = some f₁) (hx : x.name = f₁.name)
    (hfiles : fs'.files = (fs.assign name x).files) (hf : f ∈ fs'.files) :
    ∃ f₀ ∈ fs.files, f₀.name = f.name := by
  rw [hfiles] at hf
  obtain hmem | rfl := List.mem_or_eq_of_mem_set hf
  · exact ⟨f, hmem, rfl⟩
  · exact ⟨f₁, mem_of_find hf₁, hx.symm⟩

/-- After a call the name of a file was there before, or it is the given one. -/
theorem step_names {op : Op} {ok : Bool} (h : Step ts fs op ok fs') (hf : f ∈ fs'.files) :
    givenName op = some f.name ∨ ∃ f₀ ∈ fs.files, f₀.name = f.name := by
  have hpush {x : File} (hfiles : fs'.files = fs.files ++ [x]) :
      f.name = x.name ∨ ∃ f₀ ∈ fs.files, f₀.name = f.name := by
    rw [hfiles] at hf
    obtain hmem | hmem := List.mem_append.mp hf
    · exact .inr ⟨f, hmem, rfl⟩
    · rw [List.mem_singleton.mp hmem]
      exact .inl rfl
  cases h with
  | create => exact (hpush rfl).imp_left fun hname => congrArg some hname.symm
  | @rewrite _ _ content f₁ hf₁ =>
    exact .inr (name_of_mem_assign (x := stored ts fs f₁ content) hf₁ rfl rfl hf)
  | @read _ f₁ hf₁ =>
    exact .inr (name_of_mem_assign (x := { f₁ with atime := ts }) hf₁ rfl rfl hf)
  | rename =>
    obtain hmem | rfl := List.mem_or_eq_of_mem_set hf
    · exact .inr ⟨f, hmem, rfl⟩
    · exact .inl rfl
  | copyEmpty => exact (hpush rfl).imp_left fun hname => congrArg some hname.symm
  | copy => exact (hpush rfl).imp_left fun hname => congrArg some hname.symm
  | @chmod _ modeOctal f₁ hf₁ =>
    exact .inr (name_of_mem_assign (x := { f₁ with
      mode := (f₁.mode &&& 0xF000) ||| (modeOctal % 0x1000).toNat, mtime := ts }) hf₁ rfl rfl hf)
  | delete => exact .inr ⟨f, List.mem_of_mem_eraseIdx hf, rfl⟩
  | rejected _ hsame =>
    rw [hsame.files] at hf
    exact .inr ⟨f, hf, rfl⟩

theorem PlainRun.names (h : PlainRun fs) : ∀ f ∈ fs.files, PlainName f.name := by
  induction h with
  | start => exact List.forall_mem_nil _
  | run _ hgiven hrun ih =>
    obtain rfl | ⟨_, _, rfl⟩ | ⟨op, _, hcall, _, hstep⟩ := execute_cases hrun
    · exact ih
    · exact List.forall_mem_nil _
    · intro f hf
      obtain hnew | ⟨f₀, hmem, hsame⟩ := step_names hstep hf
      · exact hgiven op hcall _ hnew
      · exact hsame ▸ ih f₀ hmem

/-- In a run that gives plain names only all buttons act on their files, and in any state at all
they do exactly if the names are plain. -/
theorem rows_act (fs : FS) :
    (PlainRun fs → RowsAct fs) ∧ (RowsAct fs ↔ ∀ f ∈ fs.files, PlainName f.name) :=
  ⟨fun h => (rowsAct_iff fs).mpr h.names, rowsAct_iff fs⟩

/-- A page with the file "a". -/
theorem rows_act_a :
    RowsAct ((emptyFS [] (10 ^ 5) (10 ^ 3)).push
      (newFile [] (emptyFS [] (10 ^ 5) (10 ^ 3)) (js ['a']) 0o100644)) := by
  obtain ⟨_, hformat⟩ := run_formatLine (Nat.le_refl 3)
  have hne : js ['a'] ≠ [] := by decide
  obtain ⟨_, hcreate⟩ :=
    run_createLine (formattable_powerOfTen (Nat.le_refl 3)) hne (by decide)
  have hplain : PlainName (js ['a']) := by
    refine ⟨hne, ?_, ?_, ?_⟩
    · intro c hc
      rw [List.mem_singleton.mp hc]
      constructor <;> decide
    · intro c hc
      rw [List.mem_singleton.mp hc]
      rfl
    · intro c hc
      cases hc
      rfl
  refine (rows_act _).1 (.run (.run .start ?_ hformat) ?_ hcreate)
  · intro op hop
    rw [parse_formatLine] at hop
    cases hop
  · intro op hop name hname
    rw [parse_createLine hne] at hop
    cases hop
    cases hname
    exact hplain

/-- The quote in the name "it's" ends the literal in each of its buttons. -/
theorem buttons_of_its_fail : ¬∀ fs, Reachable fs → RowsAct fs := by
  intro h
  have hne : js ['i', 't', '\'', 's'] ≠ [] := by decide
  obtain ⟨fs, f, hone, -⟩ := exists_oneFile hne (by decide) 0
  have hmem : f ∈ fs.files := by
    rw [hone.files]
    exact List.mem_cons_self
  have hplain := (rowsAct_iff fs).mp (h fs hone.reachable) f hmem
  rw [hone.name_eq] at hplain
  exact (hplain.kept 39 (by decide)).single rfl

end MiniFs.Properties

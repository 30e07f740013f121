import MiniFs.Simulator.App
import MiniFs.Library.Quoted
import Mathlib.Data.Nat.Digits.Defs

/-! # The command line of the web page (`smartSplit`, `parseAndRun`)

A line is split into words, read as a command and executed. The state holds integers: a `format`
whose arguments are no numbers would fill it with NaN, and what it does is left open here.
-/

set_option autoImplicit false

namespace MiniFs.Simulator
open Library Library.Words Library.Quoted

def js (s : List Char) : JsString := s.map fun c => UInt16.ofNat c.toNat

/-! ## Words -/

def isQuote (c : UInt16) : Bool := c = 34 || c = 39

def isSeparator (c : UInt16) : Bool := c = 32 || c = 9

/-- The variables of the loop in `smartSplit`. -/
structure Splitter where
  result : List JsString
  cur : JsString
  inQ : Bool
  qc : UInt16

/-- The body of the loop. It goes over code points, but tells only ASCII characters apart. -/
def Splitter.step (s : Splitter) (c : UInt16) : Splitter :=
  if s.inQ then
    if c = s.qc then { s with inQ := false } else { s with cur := s.cur ++ [c] }
  else if isQuote c then { s with inQ := true, qc := c }
  else if isSeparator c then
    if s.cur = [] then s else { s with result := s.result ++ [s.cur], cur := [] }
  else { s with cur := s.cur ++ [c] }

/-- `if (cur) result.push(cur); return result` -/
def Splitter.finish (s : Splitter) : List JsString :=
  if s.cur = [] then s.result else s.result ++ [s.cur]

def smartSplit (str : JsString) : List JsString :=
  (str.foldl Splitter.step ⟨[], [], false, 0⟩).finish

/-! ## Numbers and texts -/

/-- White space and line terminators of the language. -/
def isWhiteSpace (c : UInt16) : Bool :=
  (9 ≤ c && c ≤ 13) || c = 32 || c = 0xA0 || c = 0x1680 || (0x2000 ≤ c && c ≤ 0x200A) ||
    c = 0x2028 || c = 0x2029 || c = 0x202F || c = 0x205F || c = 0x3000 || c = 0xFEFF

def trim (s : JsString) : JsString :=
  ((s.dropWhile isWhiteSpace).reverse.dropWhile isWhiteSpace).reverse

/-- The characters whose lower case is a letter of ASCII: the capitals and the Kelvin sign. -/
def lowerLetter (c : UInt16) : UInt16 :=
  if 65 ≤ c ∧ c ≤ 90 then c + 32 else if c = 0x212A then 107 else c

/-- `s.toLowerCase()`, as far as it can be one of the command words. -/
def toLowerCase (s : JsString) : JsString := s.map lowerLetter

def digitValue (c : UInt16) : Option ℕ :=
  if 48 ≤ c ∧ c ≤ 57 then some (c.toNat - 48)
  else if 97 ≤ c ∧ c ≤ 122 then some (c.toNat - 87)
  else if 65 ≤ c ∧ c ≤ 90 then some (c.toNat - 55)
  else none

def leadingDigits (radix : ℕ) : JsString → List ℕ
  | [] => []
  | c :: s => match digitValue c with
    | some d => if d < radix then d :: leadingDigits radix s else []
    | none => []

/-- `parseInt(s, radix)`, and `parseInt(s)` for radix zero. `NaN` is `none`. -/
def parseInt (s : JsString) (radix : ℕ) : Option ℤ :=
  let text := s.dropWhile isWhiteSpace
  let unsigned := if text.head? = some 43 ∨ text.head? = some 45 then text.tail else text
  let hex := (radix = 0 ∨ radix = 16) ∧ unsigned.head? = some 48 ∧
    (unsigned.tail.head? = some 120 ∨ unsigned.tail.head? = some 88)
  let base := if hex then 16 else if radix = 0 then 10 else radix
  let digits := leadingDigits base (if hex then unsigned.drop 2 else unsigned)
  let value := digits.foldl (fun n d => n * base + d) 0
  if digits = [] then none
  else some (if text.head? = some 45 then -(value : ℤ) else value)

/-- What matches `^["']` is cut off. -/
def stripFirst (s : JsString) : JsString := if s.head?.any isQuote then s.tail else s

/-- What matches `["']$` is cut off. -/
def stripLast (s : JsString) : JsString := if s.getLast?.any isQuote then s.dropLast else s

/-- `s.replace(/^["']|["']$/g, '')` -/
def stripQuotes (s : JsString) : JsString := stripLast (stripFirst s)

/-! ## Commands -/

/-- What a line is read as: a call with its arguments, or one of the replies `parseAndRun` gives
itself. -/
inductive Command where
  | format (totalSize blockSize : Option ℤ)
  | op (op : Op)
  | stat (name : JsString)
  | chmod (name : JsString) (modeOctal : Option ℤ)
  | truncate (name : JsString) (newSize : Option ℤ)
  | ls
  | statfs
  | fsck
  | perf
  | help
  | clear
  /-- `err(cmd, ...)`: the usage line of the command -/
  | usage (cmd : JsString)
  /-- "Bilinmeyen komut: '${cmd}'. 'help' yazın.", the word in lower case -/
  | unknown (word : JsString)
  /-- `return null` for a line without words -/
  | nothing

/-- `args.slice(1).join(' ').replace(...)` -/
def textArgument (args : List JsString) : JsString := stripQuotes ([32].intercalate args)

/-- The `switch` of `parseAndRun`, on the words of the line. -/
def parseParts : (parts : List JsString) → Command
  | [] => .nothing
  | word :: args =>
    let cmd := toLowerCase word
    if cmd = js ['f', 'o', 'r', 'm', 'a', 't'] then match args with
      | [totalSize, blockSize] => .format (parseInt totalSize 0) (parseInt blockSize 0)
      | _ => .usage (js ['f', 'o', 'r', 'm', 'a', 't'])
    else if cmd = js ['c', 'r', 'e', 'a', 't', 'e'] then match args with
      | [name] => .op (.create name)
      | _ => .usage (js ['c', 'r', 'e', 'a', 't', 'e'])
    else if cmd = js ['r', 'm'] ∨ cmd = js ['d', 'e', 'l', 'e', 't', 'e'] then match args with
      | [name] => .op (.delete name)
      | _ => .usage (js ['r', 'm'])
    else if cmd = js ['w', 'r', 'i', 't', 'e'] then match args with
      | name :: arg :: args => .op (.write name (textArgument (arg :: args)))
      | _ => .usage (js ['w', 'r', 'i', 't', 'e'])
    else if cmd = js ['a', 'p', 'p', 'e', 'n', 'd'] then match args with
      | name :: arg :: args => .op (.append name (textArgument (arg :: args)))
      | _ => .usage (js ['a', 'p', 'p', 'e', 'n', 'd'])
    else if cmd = js ['r', 'e', 'a', 'd'] then match args with
      | [name] => .op (.read name)
      | _ => .usage (js ['r', 'e', 'a', 'd'])
    else if cmd = js ['r', 'e', 'n', 'a', 'm', 'e'] then match args with
      | [oldName, newName] => .op (.rename oldName newName)
      | _ => .usage (js ['r', 'e', 'n', 'a', 'm', 'e'])
    else if cmd = js ['c', 'p'] then match args with
      | [src, dst] => .op (.copy src dst)
      | _ => .usage (js ['c', 'p'])
    else if cmd = js ['s', 't', 'a', 't'] then match args with
      | [name] => .stat name
      | _ => .usage (js ['s', 't', 'a', 't'])
    else if cmd = js ['c', 'h', 'm', 'o', 'd'] then match args with
      | [name, mode] => .chmod name (parseInt mode 8)
      | _ => .usage (js ['c', 'h', 'm', 'o', 'd'])
    else if cmd = js ['t', 'r', 'u', 'n', 'c', 'a', 't', 'e'] then match args with
      | [name, size] => .truncate name (parseInt size 0)
      | _ => .usage (js ['t', 'r', 'u', 'n', 'c', 'a', 't', 'e'])
    else if cmd = js ['l', 's'] then .ls
    else if cmd = js ['s', 't', 'a', 't', 'f', 's'] then .statfs
    else if cmd = js ['f', 's', 'c', 'k'] then .fsck
    else if cmd = js ['p', 'e', 'r', 'f'] then .perf
    else if cmd = js ['h', 'e', 'l', 'p'] then .help
    else if cmd = js ['c', 'l', 'e', 'a', 'r'] then .clear
    else .unknown cmd

def parseCommand (raw : JsString) : Command := parseParts (smartSplit (trim raw))

def fsStat (name : JsString) (fs : FS) : Except Msg (File × ℤ) :=
  if !fs.formatted then
    .error .notFormatted
  else
    match fs.find name with
    | none => .error (.notFound name)
    | some file => .ok (file, fs.superblock.blockSize)

def fsLs (fs : FS) : Except Msg (List File × Superblock) :=
  if !fs.formatted then .error .notFormatted else .ok (fs.files, fs.superblock)

def fsStatfs (fs : FS) : Except Msg Superblock :=
  if !fs.formatted then .error .notFormatted else .ok fs.superblock

/-- What `parseAndRun` returns. -/
inductive Answer where
  | reply (r : Reply)
  | stat (r : Except Msg (File × ℤ))
  | ls (r : Except Msg (List File × Superblock))
  | statfs (r : Except Msg Superblock)
  /-- `fsPerfReport()` -/
  | perf
  | usage (cmd : JsString)
  | help
  | unknown (word : JsString)
  | null

/-- A number that is none counts as zero in `content.slice(0, newSize)` and `modeOctal & 0x0FFF`,
and is not above a file's size; the message then shows NaN. -/
def execute (ts : JsString) : Command → FS → Option (Answer × FS)
  | .format (some totalSize) (some blockSize), fs =>
    let (r, fs) := fsFormat ts totalSize blockSize fs
    some (.reply r, fs)
  | .format _ _, _ => none
  | .op op, fs =>
    let (r, fs) := perform ts op fs
    some (.reply r, fs)
  | .stat name, fs => some (.stat (fsStat name fs), fs)
  | .chmod name modeOctal, fs =>
    let (r, fs) := fsChmod ts name (modeOctal.getD 0) fs
    some (.reply r, fs)
  | .truncate name newSize, fs =>
    let (r, fs) := fsTruncate ts name (newSize.getD 0) fs
    some (.reply r, fs)
  | .ls, fs => some (.ls (fsLs fs), fs)
  | .statfs, fs => some (.statfs (fsStatfs fs), fs)
  | .fsck, fs => some (.reply (fsFsck fs), fs)
  | .perf, fs => some (.perf, fs)
  | .help, fs => some (.help, fs)
  | .clear, fs => some (.null, fs)
  | .usage cmd, fs => some (.usage cmd, fs)
  | .unknown word, fs => some (.unknown word, fs)
  | .nothing, fs => some (.null, fs)

def parseAndRun (ts raw : JsString) (fs : FS) : Option (Answer × FS) :=
  execute ts (parseCommand raw) fs

inductive Reachable : FS → Prop
  | start : Reachable FS.start
  | run {fs fs' : FS} {ts raw : JsString} {answer : Answer} (h : Reachable fs)
      (hrun : parseAndRun ts raw fs = some (answer, fs')) : Reachable fs'

/-! ## The inline editor -/

def inlineCommand (append : Bool) (writeTarget content : JsString) : JsString :=
  (if append then js ['a', 'p', 'p', 'e', 'n', 'd'] else js ['w', 'r', 'i', 't', 'e']) ++
    32 :: (writeTarget ++ 32 :: 34 :: (content ++ [34]))

/-- The state after `doInlineWrite`; without a target it does nothing. -/
def doInlineWrite (ts writeTarget content : JsString) (append : Bool) (fs : FS) : Option FS :=
  if writeTarget = [] then some fs
  else (parseAndRun ts (inlineCommand append writeTarget content) fs).map Prod.snd

/-! ## Splitting and trimming -/

def Splitter.mode (s : Splitter) : Option UInt16 := if s.inQ then some s.qc else none

theorem Splitter.step_scan (s : Splitter) (c : UInt16) (str : JsString) :
    (s.step c).result ++ scan isSeparator isQuote (s.step c).mode (s.step c).cur str =
      s.result ++ scan isSeparator isQuote s.mode s.cur (c :: str) := by
  obtain ⟨result, cur, inQ, qc⟩ := s
  cases inQ with
  | true =>
    by_cases hc : c = qc <;> simp [Splitter.step, Splitter.mode, scan, hc]
  | false =>
    by_cases hq : isQuote c = true
    · simp [Splitter.step, Splitter.mode, scan, hq]
    · by_cases hs : isSeparator c = true
      · by_cases hcur : cur = [] <;> simp [Splitter.step, Splitter.mode, scan, flush, hq, hs, hcur]
      · simp [Splitter.step, Splitter.mode, scan, hq, hs]

theorem Splitter.foldl_step (str : JsString) (s : Splitter) :
    (str.foldl Splitter.step s).finish = s.result ++ scan isSeparator isQuote s.mode s.cur str := by
  induction str generalizing s with
  | nil =>
    rw [List.foldl_nil, Splitter.finish, scan, flush]
    split_ifs
    · rw [List.append_nil]
    · rfl
  | cons c str ih => rw [List.foldl_cons, ih, Splitter.step_scan]

theorem smartSplit_eq (str : JsString) : smartSplit str = scan isSeparator isQuote none [] str :=
  Splitter.foldl_step str ⟨[], [], false, 0⟩

theorem trim_eq {s : JsString} (hhead : ∀ c ∈ s.head?, isWhiteSpace c = false)
    (hlast : ∀ c ∈ s.getLast?, isWhiteSpace c = false) : trim s = s := by
  have hdrop {l : JsString} (h : ∀ c ∈ l.head?, isWhiteSpace c = false) :
      l.dropWhile isWhiteSpace = l := by
    cases l with
    | nil => rfl
    | cons c l => exact List.dropWhile_cons_of_neg (by simp [h c rfl])
  rw [trim, hdrop hhead, hdrop (by rwa [List.head?_reverse]), List.reverse_reverse]

theorem length_trim_le (s : JsString) : (trim s).length ≤ s.length := by
  rw [trim, List.length_reverse]
  have hinner := (List.dropWhile_suffix isWhiteSpace (l := s)).length_le
  have houter := (List.dropWhile_suffix isWhiteSpace
    (l := (s.dropWhile isWhiteSpace).reverse)).length_le
  rw [List.length_reverse] at houter
  omega

theorem mem_of_mem_trim {c : UInt16} {s : JsString} (h : c ∈ trim s) : c ∈ s := by
  rw [trim, List.mem_reverse] at h
  have hinner := List.mem_reverse.mp ((List.dropWhile_suffix isWhiteSpace).subset h)
  exact (List.dropWhile_suffix isWhiteSpace).subset hinner

/-- White space at the end is lost. -/
theorem length_trim_lt {c : UInt16} {s : JsString} (hc : c ∈ s.getLast?)
    (hspace : isWhiteSpace c = true) : (trim s).length < s.length := by
  obtain ⟨s, rfl⟩ := List.getLast?_eq_some_iff.mp hc
  have h := length_trim_le s
  have htrim : trim (s ++ [c]) = trim s := by
    rw [trim, trim, List.dropWhile_append]
    split_ifs with hnil
    · rw [List.isEmpty_iff.mp hnil, List.dropWhile_cons_of_pos hspace]
      rfl
    · rw [List.reverse_append, List.reverse_singleton, List.singleton_append,
        List.dropWhile_cons_of_pos hspace]
  rw [htrim, List.length_append, List.length_singleton]
  omega

/-- A command word and what follows it. -/
theorem smartSplit_word {word s : JsString}
    (hword : ∀ c ∈ word, isQuote c = false ∧ isSeparator c = false) (hne : word ≠ []) :
    smartSplit (word ++ 32 :: s) = word :: smartSplit s := by
  rw [smartSplit_eq, smartSplit_eq, scan_plain hword, List.nil_append, scan, if_neg (by decide),
    if_pos (by decide), flush, if_neg hne, List.singleton_append]

/-- A command word, and words behind it that end in no white space. -/
theorem trim_line {word s : JsString} (hne : word ≠ [])
    (hword : ∀ c ∈ word, isWhiteSpace c = false) (hs : s ≠ [])
    (hlast : ∀ c ∈ s.getLast?, isWhiteSpace c = false) :
    trim (word ++ 32 :: s) = word ++ 32 :: s := by
  apply trim_eq
  · obtain ⟨x, word, rfl⟩ := List.exists_cons_of_ne_nil hne
    intro c hc
    obtain rfl := Option.some.inj hc
    exact hword _ List.mem_cons_self
  · obtain ⟨y, hy⟩ := Option.isSome_iff_exists.mp (List.getLast?_isSome.mpr hs)
    rw [List.getLast?_append, List.getLast?_cons, hy]
    rw [hy] at hlast
    simpa using hlast

theorem smartSplit_single {word : JsString} (hne : word ≠ [])
    (h : ∀ c ∈ word, isQuote c = false ∧ isSeparator c = false) : smartSplit word = [word] := by
  have hscan : scan isSeparator isQuote none [] (word ++ []) =
      scan isSeparator isQuote none ([] ++ word) [] := scan_plain h
  rw [List.append_nil, List.nil_append] at hscan
  rw [smartSplit_eq, hscan, scan, flush, if_neg hne]

def isPlain (c : UInt16) : Bool := !isQuote c && !isWhiteSpace c

theorem of_isPlain {c : UInt16} (h : isPlain c = true) :
    isQuote c = false ∧ isSeparator c = false ∧ isWhiteSpace c = false := by
  rw [isPlain, Bool.and_eq_true, Bool.not_eq_true', Bool.not_eq_true'] at h
  refine ⟨h.1, ?_, h.2⟩
  -- blank and tab are white space
  have hblank : c ≠ 32 := by
    rintro rfl
    exact absurd h.2 (by decide)
  have htab : c ≠ 9 := by
    rintro rfl
    exact absurd h.2 (by decide)
  simp [isSeparator, hblank, htab]

/-- A command word is split off from its line. -/
theorem parseCommand_eq {word s : JsString} (hne : word ≠ []) (hword : word.all isPlain = true)
    (hs : s ≠ []) (hlast : ∀ c ∈ s.getLast?, isWhiteSpace c = false) :
    parseCommand (word ++ 32 :: s) = parseParts (word :: smartSplit s) := by
  have hplain : ∀ c ∈ word, isQuote c = false ∧ isSeparator c = false ∧ isWhiteSpace c = false :=
    fun c hc => of_isPlain (List.all_eq_true.mp hword c hc)
  rw [parseCommand, trim_line hne (fun c hc => (hplain c hc).2.2) hs hlast,
    smartSplit_word (fun c hc => ⟨(hplain c hc).1, (hplain c hc).2.1⟩) hne]

/-- Only the command `stat` calls `fsStat`, with its only argument. -/
theorem parseParts_stat {name : JsString} {parts : List JsString}
    (h : parseParts parts = .stat name) :
    ∃ word, parts = [word, name] ∧ toLowerCase word = js ['s', 't', 'a', 't'] := by
  revert h
  fun_cases parseParts parts with
  | case18 word cmd _ _ _ _ _ _ _ _ hstat name =>
    intro h
    cases h
    exact ⟨word, rfl, hstat⟩
  | _ =>
    intro h
    cases h

end MiniFs.Simulator

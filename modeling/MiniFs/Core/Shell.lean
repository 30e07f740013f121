import MiniFs.Core.Admin
import MiniFs.Library.Words

/-! # The interactive shell (`fs_shell`)

Standard input is a list of bytes. What the shell reads and calls does not depend on the
answers of the calls, so its loop is a function from the input to the calls it makes;
prompts and the banner are left out.
-/

set_option autoImplicit false

namespace MiniFs.Core
open Library Library.Words

def ascii (s : List Char) : List UInt8 := s.map fun c => UInt8.ofNat c.toNat

/-- One of the delimiters `" \t"`. -/
def isBlank (b : UInt8) : Bool := b = 32 || b = 9

abbrev lineSize : ℕ := 512
/-- The second operand of `argc < 15`. -/
abbrev maxArgs : ℕ := 15
abbrev dataSize : ℕ := 480

/-! ## The C library -/

namespace CStr

def takeWhile (p : UInt8 → Bool) (s : CStr) : CStr :=
  ⟨s.bytes.takeWhile p, fun h => s.noNul ((List.takeWhile_prefix p).subset h)⟩

def dropWhile (p : UInt8 → Bool) (s : CStr) : CStr :=
  ⟨s.bytes.dropWhile p, fun h => s.noNul ((List.dropWhile_suffix p).subset h)⟩

def drop (n : ℕ) (s : CStr) : CStr :=
  ⟨s.bytes.drop n, fun h => s.noNul ((List.drop_suffix n _).subset h)⟩

end CStr

/-- `fgets(line, size, stdin)`: the bytes put into `line`, and those left to read. -/
def fgets (size : ℕ) (input : List UInt8) : Option (List UInt8 × List UInt8) :=
  if input = [] then none
  else
    let n := min (size - 1) (input.idxOf 10 + 1)
    some (input.take n, input.drop n)

/-- `line[strcspn(line, "\n")] = '\0'`: what is left before the first newline or NUL. -/
def stripNewline (line : List UInt8) : CStr where
  bytes := line.takeWhile fun b => b ≠ 0 ∧ b ≠ 10
  noNul h := by simpa using List.mem_takeWhile_imp h

/-- `strtok(s, " \t")`: the next token and the string after the delimiter that ends it. -/
def strtok (s : CStr) : Option (CStr × CStr) :=
  let start := s.dropWhile isBlank
  if start.bytes = [] then none
  else some (start.takeWhile fun b => !isBlank b, (start.dropWhile fun b => !isBlank b).drop 1)

/-- `strcat(dst, src)`, room in `dst` apart. -/
def strcat (dst src : CStr) : CStr :=
  ⟨dst.bytes ++ src.bytes, fun h => (List.mem_append.mp h).elim dst.noNul src.noNul⟩

def isSpace (b : UInt8) : Bool := b = 32 || (9 ≤ b && b ≤ 13)

/-- `strtol(s, NULL, base)` for a base up to ten. A value that a `long` cannot hold becomes the
nearest one it can. -/
def strtol (s : CStr) (base : ℕ) : ℤ :=
  let text := s.bytes.dropWhile isSpace
  let digits := match text with
    | 43 :: rest => rest
    | 45 :: rest => rest
    | _ => text
  let value := (digits.takeWhile fun b => 48 ≤ b.toNat ∧ b.toNat < 48 + base).foldl
    (fun n b => n * base + (b.toNat - 48)) 0
  if text.head? = some 45 then max (-(value : ℤ)) (-2 ^ 63) else min (value : ℤ) (2 ^ 63 - 1)

/-- `(uint32_t)atoi(s)`: the low bits of what `strtol` reads. -/
def atoi (s : CStr) : UInt32 := UInt32.ofInt (strtol s 10)

/-! ## One line -/

inductive ShellCall where
  | file (op : FileOp)
  | ls
  | stat (name : CStr)
  | statfs
  | fsck
  | perf
  /-- `fs_unmount`, `fs_format` and `fs_mount` -/
  | format (totalSize blockSize : UInt32)
  /-- only the message that there is no such command -/
  | unknown (cmd : CStr)

inductive LineResult where
  /-- on to the next line -/
  | next
  | exit
  | call (c : ShellCall)
  /-- `strcat` wrote behind `data` -/
  | overflow

/-- `while (tok && argc < 15) { argv[argc++] = tok; ... }` -/
def tokenize : ℕ → CStr → List CStr
  | 0, _ => []
  | n + 1, s => match strtok s with
    | none => []
    | some (tok, rest) => tok :: tokenize n rest

/-- `for (i = 2; i < argc; i++) { if (i > 2) strcat(data, " "); strcat(data, argv[i]); }` -/
def rejoin : (i : ℕ) → List CStr → CStr → CStr
  | _, [], data => data
  | i, arg :: args, data =>
    rejoin (i + 1) args (strcat (if i > 2 then strcat data ⟨[32], by decide⟩ else data) arg)

/-- `char data[480] = "";` and the loop that fills it from `argv[2]` on. -/
def joinArgs (args : List CStr) : CStr := rejoin 2 args ⟨[], by decide⟩

/-- The branches `write` and `append`. Text that does not fit `data` with its NUL is written
past its end. -/
def storeArgs (op : CStr → CStr → FileOp) (name : CStr) (args : List CStr) : LineResult :=
  if (joinArgs args).strlen < dataSize then .call (.file (op name (joinArgs args))) else .overflow

/-- The chain of `strcmp`s, by the number of arguments they ask for. A command with too few
arguments is unknown. -/
def dispatch : List CStr → LineResult
  | [] => .next
  | cmd :: args =>
    if cmd.bytes = ascii ['l', 's'] then .call .ls
    else if cmd.bytes = ascii ['s', 't', 'a', 't', 'f', 's'] then .call .statfs
    else if cmd.bytes = ascii ['f', 's', 'c', 'k'] then .call .fsck
    else if cmd.bytes = ascii ['p', 'e', 'r', 'f'] then .call .perf
    else match args with
      | [] => .call (.unknown cmd)
      | name :: args =>
        if cmd.bytes = ascii ['c', 'r', 'e', 'a', 't', 'e'] then .call (.file (.create name))
        else if cmd.bytes = ascii ['r', 'm'] then .call (.file (.delete name))
        else if cmd.bytes = ascii ['r', 'e', 'a', 'd'] then .call (.file (.read name))
        else if cmd.bytes = ascii ['s', 't', 'a', 't'] then .call (.stat name)
        else match args with
          | [] => .call (.unknown cmd)
          | arg :: _ =>
            if cmd.bytes = ascii ['w', 'r', 'i', 't', 'e'] then storeArgs .write name args
            else if cmd.bytes = ascii ['a', 'p', 'p', 'e', 'n', 'd'] then
              storeArgs .append name args
            else if cmd.bytes = ascii ['r', 'e', 'n', 'a', 'm', 'e'] then
              .call (.file (.rename name arg))
            else if cmd.bytes = ascii ['c', 'p'] then .call (.file (.copy name arg))
            else if cmd.bytes = ascii ['c', 'h', 'm', 'o', 'd'] then
              .call (.file (.chmod name (UInt16.ofInt (strtol arg 8))))
            else if cmd.bytes = ascii ['t', 'r', 'u', 'n', 'c', 'a', 't', 'e'] then
              .call (.file (.truncate name (atoi arg)))
            else if cmd.bytes = ascii ['f', 'o', 'r', 'm', 'a', 't'] then
              .call (.format (atoi name) (atoi arg))
            else .call (.unknown cmd)

/-- The body of the loop, for what `fgets` read. -/
def shellLine (line : List UInt8) : LineResult :=
  let text := stripNewline line
  if text.strlen = 0 then .next
  else if text.bytes = ascii ['e', 'x', 'i', 't'] ∨ text.bytes = ascii ['q', 'u', 'i', 't'] then
    .exit
  else dispatch (tokenize maxArgs text)

/-! ## What the parts compute -/

theorem tokenize_bytes (n : ℕ) (s : CStr) :
    (tokenize n s).map CStr.bytes = (words isBlank s.bytes).take n := by
  induction n generalizing s with
  | zero => rfl
  | succ n ih =>
    rw [tokenize, strtok]
    by_cases hstart : (s.dropWhile isBlank).bytes = []
    · have hwords := words_dropWhile isBlank s.bytes
      rw [show s.bytes.dropWhile isBlank = [] from hstart, words_nil] at hwords
      simp only [hstart, if_true, List.map_nil, ← hwords, List.take_nil]
    · rw [words_eq_cons hstart, List.take_succ_cons]
      simp only [hstart, if_false, List.map_cons, ih]
      rfl

theorem rejoin_bytes (args : List CStr) {i : ℕ} (hi : 2 ≤ i) (data : CStr) :
    (rejoin (i + 1) args data).bytes =
      data.bytes ++ (args.map CStr.bytes).flatMap fun arg => 32 :: arg := by
  induction args generalizing i data with
  | nil => simp [rejoin]
  | cons arg args ih =>
    rw [rejoin, ih (Nat.le_succ_of_le hi), if_pos (Nat.lt_succ_of_le hi)]
    simp [strcat]

theorem joinArgs_bytes (args : List CStr) :
    (joinArgs args).bytes = [32].intercalate (args.map CStr.bytes) := by
  cases args with
  | nil => rfl
  | cons arg args =>
    rw [joinArgs, rejoin, if_neg (Nat.lt_irrefl 2), rejoin_bytes args (Nat.le_refl 2),
      List.map_cons, intercalate_cons]
    rfl

theorem stripNewline_begins (line : List UInt8) : (stripNewline line).bytes <+: line :=
  List.takeWhile_prefix _

theorem stripNewline_bytes {line : List UInt8} (h0 : 0 ∉ line) (h : 10 ∉ line) :
    (stripNewline line).bytes = line := by
  refine List.takeWhile_eq_self_iff.mpr fun b hb => ?_
  have h0' : b ≠ 0 := fun he => h0 (he ▸ hb)
  have h' : b ≠ 10 := fun he => h (he ▸ hb)
  simp [h0', h']

theorem stripNewline_newline (line : List UInt8) :
    stripNewline (line ++ [10]) = stripNewline line := by
  unfold stripNewline
  congr 1
  induction line with
  | nil => rfl
  | cons b line ih => simp only [List.cons_append, List.takeWhile_cons, ih]

/-- Without a newline among the bytes that fit, these are read. -/
theorem fgets_long {size : ℕ} (hsize : 1 < size) {line tail : List UInt8} (h : 10 ∉ line)
    (hlen : size - 1 ≤ line.length) :
    fgets size (line ++ tail) = some (line.take (size - 1), line.drop (size - 1) ++ tail) := by
  have hne : line ++ tail ≠ [] := by
    intro hnil
    rw [(List.append_eq_nil_iff.mp hnil).1] at hlen
    simp only [List.length_nil] at hlen
    omega
  have hidx : line.length ≤ (line ++ tail).idxOf 10 := by
    rw [List.idxOf_append_of_notMem h]
    omega
  rw [fgets, if_neg hne]
  simp only
  rw [Nat.min_eq_left (by omega), List.take_append_of_le_length hlen,
    List.drop_append_of_le_length hlen]

theorem fgets_short {size : ℕ} {line rest : List UInt8} (h : 10 ∉ line)
    (hlen : line.length < size - 1) :
    fgets size (line ++ 10 :: rest) = some (line ++ [10], rest) := by
  have hidx : (line ++ 10 :: rest).idxOf 10 = line.length := by
    rw [List.idxOf_append_of_notMem h]
    simp
  rw [fgets, if_neg (by simp), hidx]
  simp only
  rw [Nat.min_eq_right (by omega), List.append_cons, List.take_left' (by simp),
    List.drop_left' (by simp)]

theorem fgets_last {size : ℕ} {line : List UInt8} (hne : line ≠ []) (h : 10 ∉ line)
    (hlen : line.length ≤ size - 1) : fgets size line = some (line, []) := by
  have hidx := List.idxOf_eq_length h
  rw [fgets, if_neg hne]
  simp only
  rw [hidx, List.take_of_length_le (by omega), List.drop_eq_nil_of_le (by omega)]

/-! ## The loop -/

inductive ShellRun where
  | left
  /-- nothing is known of what follows -/
  | overflow
  | call (c : ShellCall) (run : ShellRun)

def LineResult.andThen (run : ShellRun) : LineResult → ShellRun
  | .next => run
  | .exit => .left
  | .call c => .call c run
  | .overflow => .overflow

theorem fgets_shorter {size : ℕ} (hsize : 1 < size) {input line rest : List UInt8}
    (h : fgets size input = some (line, rest)) : rest.length < input.length := by
  unfold fgets at h
  split_ifs at h with hinput
  obtain ⟨rfl, rfl⟩ := Prod.mk.inj (Option.some.inj h)
  have hpos := List.length_pos_iff.mpr hinput
  rw [List.length_drop]
  omega

def fsShell (input : List UInt8) : ShellRun :=
  match _h : fgets lineSize input with
  | none => .left
  | some (line, rest) => (shellLine line).andThen (fsShell rest)
termination_by input.length
decreasing_by exact fgets_shorter (by decide) _h

/-- What follows a line: a newline and the rest of the input, or the end of it. -/
def Ended (tail rest : List UInt8) : Prop := tail = 10 :: rest ∨ tail = [] ∧ rest = []

theorem fsShell_nil : fsShell [] = .left := by
  rw [fsShell]
  rfl

theorem fsShell_of_fgets {input line rest : List UInt8}
    (h : fgets lineSize input = some (line, rest)) :
    fsShell input = (shellLine line).andThen (fsShell rest) := by
  rw [fsShell]
  split <;> simp_all

section Lines
variable {line tail rest : List UInt8}

/-- A line that does not fit the buffer goes on as a line of its own. -/
theorem fsShell_long (h : 10 ∉ line) (hlen : lineSize - 1 ≤ line.length) :
    fsShell (line ++ tail) = (shellLine (line.take (lineSize - 1))).andThen
      (fsShell (line.drop (lineSize - 1) ++ tail)) :=
  fsShell_of_fgets (fgets_long (by decide) h hlen)

theorem fsShell_short (h : 10 ∉ line) (hlen : line.length < lineSize - 1) (hend : Ended tail rest) :
    fsShell (line ++ tail) = (shellLine line).andThen (fsShell rest) := by
  obtain rfl | ⟨rfl, rfl⟩ := hend
  · rw [fsShell_of_fgets (fgets_short h hlen), shellLine, stripNewline_newline]
    rfl
  · rw [List.append_nil]
    by_cases hline : line = []
    · subst hline
      rw [fsShell_nil]
      rfl
    · refine fsShell_of_fgets ?_
      rw [fgets, if_neg hline, List.idxOf_eq_length h, Nat.min_eq_right hlen]
      simp only [List.take_of_length_le (Nat.le_succ line.length),
        List.drop_of_length_le (Nat.le_succ line.length)]

end Lines

end MiniFs.Core

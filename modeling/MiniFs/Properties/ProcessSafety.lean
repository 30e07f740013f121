import MiniFs.Image.Lost
import MiniFs.Properties.Processes

/-! # Every process comes to its end

What a process does is defined to its end, and it leaves a disk that the next one
can mount or that none can, unless one of a few things happens: a block size whose
eightfold is zero in 32 bits, a line with more text than the shell has room for, or
a format in the shell to less than a superblock.
-/

set_option autoImplicit false

namespace MiniFs.Properties
open MiniFs.Core MiniFs.Image Library Library.Exec

/-! ## What the shell calls -/

def ShellCall.ArgsBelow (n : ℕ) : ShellCall → Prop
  | .file op => op.ArgsBelow n
  | .stat name => name.strlen < n
  | _ => True

def LineResult.ArgsBelow (n : ℕ) : LineResult → Prop
  | .call c => ShellCall.ArgsBelow n c
  | _ => True

def ShellRun.ArgsBelow (n : ℕ) : ShellRun → Prop
  | .call c run => ShellCall.ArgsBelow n c ∧ ShellRun.ArgsBelow n run
  | _ => True

/-- No line overflows, and no format is for sizes that are not safe. -/
def ShellRun.Safe : ShellRun → Prop
  | .left => True
  | .overflow => False
  | .call (.format totalSize blockSize) run => SafeFormat totalSize blockSize ∧ ShellRun.Safe run
  | .call _ run => ShellRun.Safe run

theorem strtok_strlen {s tok rest : CStr} (h : strtok s = some (tok, rest)) :
    tok.strlen ≤ s.strlen ∧ rest.strlen ≤ s.strlen := by
  rw [strtok] at h
  split_ifs at h
  obtain ⟨rfl, rfl⟩ := Prod.mk.inj (Option.some.inj h)
  have hstart := (List.dropWhile_suffix (l := s.bytes) isBlank).length_le
  constructor
  · exact (List.takeWhile_prefix _).length_le.trans hstart
  · exact ((List.drop_suffix 1 _).length_le.trans (List.dropWhile_suffix _).length_le).trans hstart

theorem tokenize_strlen {n : ℕ} {s tok : CStr} (h : tok ∈ tokenize n s) :
    tok.strlen ≤ s.strlen := by
  induction n generalizing s with
  | zero => cases h
  | succ n ih =>
    rw [tokenize] at h
    cases htok : strtok s with
    | none =>
      rw [htok] at h
      cases h
    | some p =>
      rw [htok] at h
      obtain ⟨hfirst, hrest⟩ := strtok_strlen htok
      cases h with
      | head => exact hfirst
      | tail _ hmem => exact (ih hmem).trans hrest

theorem storeArgs_argsBelow {n : ℕ} (hn : dataSize ≤ n) {op : CStr → CStr → FileOp} {name : CStr}
    {args : List CStr} (hop : ∀ data : CStr, data.strlen < n → (op name data).ArgsBelow n) :
    LineResult.ArgsBelow n (storeArgs op name args) := by
  rw [storeArgs]
  split_ifs with hdata
  · exact hop _ (hdata.trans_le hn)
  · trivial

theorem below_pair {n : ℕ} {s t : CStr} (hs : s.strlen < n) (ht : t.strlen < n) :
    ∀ arg ∈ [s, t], arg.strlen < n :=
  List.forall_mem_cons.mpr ⟨hs, List.forall_mem_singleton.mpr ht⟩

theorem dispatch_argsBelow {n : ℕ} (hn : dataSize ≤ n) {argv : List CStr}
    (h : ∀ arg ∈ argv, arg.strlen < n) : LineResult.ArgsBelow n (dispatch argv) := by
  have hfirst {cmd name : CStr} {args : List CStr}
      (h : ∀ arg ∈ cmd :: name :: args, arg.strlen < n) : name.strlen < n := h name (by simp)
  have hsecond {cmd name data : CStr} {args : List CStr}
      (h : ∀ arg ∈ cmd :: name :: data :: args, arg.strlen < n) : data.strlen < n :=
    h data (by simp)
  fun_cases dispatch argv with
  | case7 => exact List.forall_mem_singleton.mpr (hfirst h)
  | case8 => exact List.forall_mem_singleton.mpr (hfirst h)
  | case9 => exact List.forall_mem_singleton.mpr (hfirst h)
  | case10 => exact hfirst h
  | case12 => exact storeArgs_argsBelow hn fun data hdata => below_pair (hfirst h) hdata
  | case13 => exact storeArgs_argsBelow hn fun data hdata => below_pair (hfirst h) hdata
  | case14 => exact below_pair (hfirst h) (hsecond h)
  | case15 => exact below_pair (hfirst h) (hsecond h)
  | case16 => exact List.forall_mem_singleton.mpr (hfirst h)
  | case17 => exact List.forall_mem_singleton.mpr (hfirst h)
  | _ => trivial

theorem shellLine_argsBelow {line : List UInt8} (h : line.length < lineSize) :
    LineResult.ArgsBelow lineSize (shellLine line) := by
  have htext : (stripNewline line).strlen < lineSize :=
    (stripNewline_begins line).length_le.trans_lt h
  rw [shellLine]
  split_ifs
  · trivial
  · trivial
  · exact dispatch_argsBelow (by decide) fun arg harg => (tokenize_strlen harg).trans_lt htext

theorem fgets_length {size : ℕ} (hsize : 0 < size) {input line rest : List UInt8}
    (h : fgets size input = some (line, rest)) : line.length < size := by
  rw [fgets] at h
  split_ifs at h
  obtain ⟨rfl, -⟩ := Prod.mk.inj (Option.some.inj h)
  rw [List.length_take]
  omega

/-- The arguments of a call come out of one line. -/
theorem fsShell_argsBelow (input : List UInt8) : ShellRun.ArgsBelow lineSize (fsShell input) := by
  induction hlen : input.length using Nat.strong_induction_on generalizing input with
  | _ len ih =>
    cases hline : fgets lineSize input with
    | none =>
      rw [fsShell]
      split <;> simp_all [ShellRun.ArgsBelow]
    | some p =>
      obtain ⟨line, rest⟩ := p
      have hcall := shellLine_argsBelow (fgets_length (by decide) hline)
      have hrest := ih rest.length (hlen ▸ fgets_shorter (by decide) hline) rest rfl
      rw [fsShell_of_fgets hline]
      cases hresult : shellLine line with
      | next => exact hrest
      | exit => trivial
      | overflow => trivial
      | call c =>
        rw [hresult] at hcall
        exact ⟨hcall, hrest⟩

/-! ## Shells -/

theorem runCommand_atWork {c : Command} (hc : c.ArgsBelow (2 ^ 17)) :
    Total AtWork (runCommand c) fun _ => AtWork := by
  rintro s (hm | hl)
  · obtain ⟨r, s', hrun, hs'⟩ := hm.runs hc
    exact ⟨r, s', hrun, .inl hs'⟩
  · obtain ⟨r, s', hrun, hs'⟩ := Lost.runCommand_lost c s hl
    exact ⟨r, s', hrun, .inr hs'⟩

theorem shellRun_atWork {run : ShellRun} (hargs : ShellRun.ArgsBelow lineSize run)
    (hsafe : ShellRun.Safe run) (clock : ℕ → UInt64) :
    Total AtWork (run.run clock) fun _ => AtWork := by
  have hlt : lineSize ≤ 2 ^ 17 := by decide
  induction run generalizing clock with
  | left => exact .pure fun _ h => h
  | overflow => exact hsafe.elim
  | call c run ih =>
    have hcall : Total AtWork (c.run (clock 0)) fun _ => AtWork := by
      cases c with
      | file op => exact runCommand_atWork (c := .file ⟨op, clock 0⟩) fun s hs =>
          (hargs.1 s hs).trans_le hlt
      | ls => exact runCommand_atWork (c := .ls) trivial
      | stat name => exact runCommand_atWork (c := .stat name) (hargs.1.trans_le hlt)
      | statfs => exact runCommand_atWork (c := .statfs) trivial
      | fsck => exact runCommand_atWork (c := .fsck) trivial
      | perf => exact .pure fun _ h => h
      | format totalSize blockSize =>
        exact (shellFormat_atWork hsafe.1).seq fun _ => .pure fun _ h => h
      | unknown cmd => exact .pure fun _ h => h
    have hrest : ShellRun.Safe run := by
      cases c with
      | format totalSize blockSize => exact hsafe.2
      | _ => exact hsafe
    exact hcall.seq fun _ => ih hargs.2 hrest _

/-- `fs_unmount` leaves a disk at rest. -/
theorem fsUnmount_atWork : Total AtWork fsUnmount fun _ s => AtRest s.file := by
  rintro s (hm | hl)
  · obtain ⟨g, v, hrep, hv⟩ := hm.steady
    have hrun := fsUnmount_ready hrep hv
    exact ⟨_, _, hrun, atRest_unmount hm hrun⟩
  · obtain ⟨u, s', hrun, hblank⟩ := Lost.fsUnmount_lost s hl
    obtain ⟨n, hfile⟩ := hblank.file
    have hrest : AtRest s'.file := hfile.symm ▸ atRest_zeros n
    exact ⟨u, s', hrun, hrest⟩

/-! ## Processes -/

structure Invocation where
  argv : List CStr
  /-- standard input -/
  input : List UInt8
  clock : ℕ → UInt64
  behindSb : ℕ → UInt8
  garbage : ℕ → UInt8

def process (p : Invocation) : Prog (Option (List UInt8)) Exit := fun file =>
  (main p.clock p.input p.argv (World.start file p.behindSb p.garbage)).map fun r => (r.1, r.2.file)

/-- The strings of a command line are shorter than 128 KiB. -/
structure Invocation.Safe (p : Invocation) : Prop where
  args : ∀ arg ∈ p.argv, arg.strlen < 2 ^ 17
  format : ∀ arg0 cmd a b, p.argv = [arg0, cmd, a, b] →
    cmd.bytes = ascii ['f', 'o', 'r', 'm', 'a', 't'] → atoi b < inodeSize ∨ atoi b * 8 ≠ 0
  shell : ∀ arg0 cmd args, p.argv = arg0 :: cmd :: args →
    cmd.bytes = ascii ['s', 'h', 'e', 'l', 'l'] → ShellRun.Safe (fsShell p.input)

section Process
variable {file : Option (List UInt8)} {behindSb garbage : ℕ → UInt8}

/-- What comes between the mount and the unmount of a process comes to its end. -/
theorem mounted_returns (h : AtRest file) {body : M Exit}
    (hbody : Total Mounted body fun _ => AtWork) :
    ∃ e w, mounted body (World.start file behindSb garbage) = some (e, w) ∧ AtRest w.file := by
  cases h with
  | unmountable hno =>
    obtain ⟨w, hmount⟩ := hno behindSb garbage
    refine ⟨⟨1, some .failedToMount⟩, w, ?_, ?_⟩
    · rw [mounted, bind_apply, hmount]
      rfl
    · obtain ⟨-, hfile⟩ | ⟨hr, -⟩ := Image.fsMount_cases rfl hmount
      · rw [hfile]
        exact .unmountable hno
      · exact absurd hr (by decide)
  | @mounted s hs hfile =>
    subst hfile
    obtain ⟨g, v, hrep, hv⟩ := hs.steady
    obtain ⟨m, hmount, -⟩ := hrep.mounts hv behindSb garbage
    obtain ⟨e, t, hexec, ht⟩ := hbody m (.process hs hmount)
    obtain ⟨u, w, hunmount, hw⟩ := fsUnmount_atWork t ht
    refine ⟨e, w, ?_, hw⟩
    rw [mounted, bind_apply, hmount, Option.bind_some]
    change (body >>= fun e => fsUnmount >>= fun _ => pure e) m = _
    rw [bind_apply, hexec, Option.bind_some, bind_apply, hunmount]
    rfl

theorem format_returns (h : AtRest file) (now : UInt64) (totalSize : UInt32) {blockSize : UInt32}
    (hsafe : blockSize < inodeSize ∨ blockSize * 8 ≠ 0) :
    ∃ r w, fsFormat now totalSize blockSize (World.start file behindSb garbage) = some (r, w) ∧
      AtRest w.file := by
  by_cases hsmall : blockSize < inodeSize
  · obtain ⟨w, hrun, hfile⟩ :=
      fsFormat_small (World.start file behindSb garbage) now totalSize hsmall
    exact ⟨-1, w, hrun, hfile.symm ▸ h⟩
  · by_cases hfm : Formattable totalSize blockSize
    · obtain ⟨w, hrun, -⟩ := fsFormat_formatted hfm now (s := World.start file behindSb garbage) rfl
      exact ⟨0, w, hrun, atRest_format rfl hrun⟩
    · obtain ⟨msg, hrun⟩ := fsFormat_zeros (s := World.start file behindSb garbage) now rfl
        hsmall (hsafe.resolve_left hsmall) hfm
      exact ⟨-1, _, hrun, atRest_zeros _⟩

theorem main_returns {p : Invocation} (hp : p.Safe) (h : AtRest file) :
    ∃ e file', process p file = some (e, file') ∧ AtRest file' := by
  have hrun : ∃ e w, main p.clock p.input p.argv (World.start file p.behindSb p.garbage) =
      some (e, w) ∧ AtRest w.file := by
    obtain ⟨argv, input, clock, behindSb, garbage⟩ := p
    obtain ⟨hargs, hformat, hshell⟩ := hp
    dsimp only at hargs hformat hshell ⊢
    fun_cases main clock input argv with
    | case1 arg0 cmd hcmd a b =>
      obtain ⟨r, w, hrun, hw⟩ := format_returns h (clock 0) (atoi a) (hformat arg0 cmd a b rfl hcmd)
      refine ⟨.of r, w, ?_, hw⟩
      rw [bind_apply, hrun]
      rfl
    | case2 => exact ⟨_, _, rfl, h⟩
    | case3 arg0 cmd args _ hcmd =>
      refine mounted_returns h ?_
      refine ((shellRun_atWork (fsShell_argsBelow input) (hshell arg0 cmd args rfl hcmd)
        clock).conseq (fun _ hm => .inl hm) fun _ _ hs => hs).seq fun _ => .pure fun _ hs => hs
    | case4 arg0 cmd args =>
      refine mounted_returns h ?_
      obtain ⟨e, hpure⟩ | ⟨c, f, hcommand, hbelow⟩ := mainCommand_cases (clock 0) cmd args
      · rw [hpure]
        exact .pure fun _ hm => .inl hm
      · have hc : c.ArgsBelow (2 ^ 17) := hbelow _ fun arg harg =>
          hargs arg (List.mem_cons_of_mem _ (List.mem_cons_of_mem _ harg))
        rw [hcommand]
        exact ((runCommand_atWork hc).conseq (fun _ hm => .inl hm) fun _ _ hs => hs).seq fun _ =>
          .pure fun _ hs => hs
    | case5 => exact ⟨_, _, rfl, h⟩
  obtain ⟨e, w, hmain, hw⟩ := hrun
  exact ⟨e, w.file, by rw [process, hmain]; rfl, hw⟩

end Process

def programName : CStr := ⟨ascii ['m', 'i', 'n', 'i', '_', 'f', 's'], by decide⟩

def formatFour : Invocation where
  argv := [programName, ⟨ascii ['f', 'o', 'r', 'm', 'a', 't'], by decide⟩,
    ⟨ascii ['5', '7', '6'], by decide⟩, ⟨ascii ['1', '4', '4'], by decide⟩]
  input := []
  clock := fun _ => 0
  behindSb := 0
  garbage := 0

def createLine : List UInt8 := ascii ['c', 'r', 'e', 'a', 't', 'e', ' ', 'a']
def oneBlockLine : List UInt8 :=
  ascii ['f', 'o', 'r', 'm', 'a', 't', ' ', '1', '4', '4', ' ', '1', '4', '4']
def lsLine : List UInt8 := ascii ['l', 's']

def lostShell : Invocation where
  argv := [programName, ⟨ascii ['s', 'h', 'e', 'l', 'l'], by decide⟩]
  input := createLine ++ 10 :: (oneBlockLine ++ 10 :: (lsLine ++ []))
  clock := fun _ => 0
  behindSb := 0
  garbage := 0

theorem formatFour_safe : formatFour.Safe where
  args := by simp [formatFour, programName, CStr.strlen, ascii]
  format arg0 cmd a b hargv _ := by
    have hb : b = ⟨ascii ['1', '4', '4'], by decide⟩ := by simp_all [formatFour]
    subst hb
    exact .inr (by decide)
  shell arg0 cmd args hargv hcmd := by
    have hc : cmd = ⟨ascii ['f', 'o', 'r', 'm', 'a', 't'], by decide⟩ := by simp_all [formatFour]
    subst hc
    exact absurd hcmd (by decide)

theorem lostShell_safe : lostShell.Safe where
  args := by simp [lostShell, programName, CStr.strlen, ascii]
  format arg0 cmd a b hargv _ := by simp [lostShell] at hargv
  shell arg0 cmd args _ _ := by
    have h1 : shellLine createLine = .call (.file (.create ⟨[97], by decide⟩)) := rfl
    have h2 : shellLine oneBlockLine = .call (.format 144 144) := rfl
    have h3 : shellLine lsLine = .call .ls := rfl
    change ShellRun.Safe (fsShell (createLine ++ 10 :: (oneBlockLine ++ 10 :: (lsLine ++ []))))
    rw [fsShell_short (by decide) (by decide) (.inl rfl), h1,
      fsShell_short (by decide) (by decide) (.inl rfl), h2,
      fsShell_short (by decide) (by decide) (.inr ⟨rfl, rfl⟩), h3, fsShell_nil]
    exact ⟨.inr (by decide), trivial⟩

end MiniFs.Properties

import MiniFs.Properties.TypedCommands
import MiniFs.Properties.ProcessSafety

/-! # One shell or a process for each command

A disk file and a screen are left alike by a shell that reads a list of commands and by
processes that run one of them each: the screen is the same, and so is the file outside
the rest of block 0, which no command reads.
-/

set_option autoImplicit false

namespace MiniFs.Image
open MiniFs.Core Library

theorem AgreeOutsideTail.symm {g : Geometry} {d e : List UInt8} (h : AgreeOutsideTail g d e) :
    AgreeOutsideTail g e d :=
  ⟨h.1.symm, fun k hk => (h.2 k hk).symm⟩

end MiniFs.Image

namespace MiniFs.Properties
open MiniFs.Core MiniFs.Image Library Library.Exec

/-- What processes share: the disk file, and the screen they print on. -/
structure Terminal where
  file : Option (List UInt8)
  out : List Message

/-- The memory a process finds: behind its superblock, and elsewhere. -/
abbrev Memory := (ℕ → UInt8) × (ℕ → UInt8)

def Terminal.start (t : Terminal) (m : Memory) : World :=
  { World.start t.file m.1 m.2 with out := t.out }

def terminal (w : World) : Terminal := ⟨w.file, w.out⟩

def runProcess (p : Invocation) : Prog Terminal Exit := fun t =>
  (main p.clock p.input p.argv (t.start (p.behindSb, p.garbage))).map fun r => (r.1, terminal r.2)

/-- A command that is typed on one line, or given as the arguments of a process. -/
structure TypedCommand where
  cmd : CStr
  args : List CStr
  call : ShellCall
  typed : Typed cmd args call
  oneLine : OneLine (typedLine cmd args)

def TypedCommand.process (c : TypedCommand) (arg0 : CStr) (now : UInt64) (m : Memory) :
    Invocation where
  argv := arg0 :: c.cmd :: c.args
  input := []
  clock := fun _ => now
  behindSb := m.1
  garbage := m.2

/-- A process for each command, the `k`-th at `clock k`. -/
def oneByOne (arg0 : CStr) (clock : ℕ → UInt64) : List (TypedCommand × Memory) → List Invocation
  | [] => []
  | c :: cs => c.1.process arg0 (clock 0) c.2 :: oneByOne arg0 (fun k => clock (k + 1)) cs

def typedInput : List TypedCommand → List UInt8
  | [] => []
  | c :: cs => typedLine c.cmd c.args ++ 10 :: typedInput cs

def literal (s : List Char) : CStr := ⟨(ascii s).filter (· ≠ 0), by simp⟩

def shellWord : CStr := literal ['s', 'h', 'e', 'l', 'l']

def oneShell (arg0 : CStr) (clock : ℕ → UInt64) (cs : List TypedCommand) (m : Memory) :
    Invocation where
  argv := [arg0, shellWord]
  input := typedInput cs
  clock := clock
  behindSb := m.1
  garbage := m.2

/-- Disk files with the same bytes, those of block 0 behind the superblock apart. -/
def SameDisk (blockSize : ℕ) (file file' : Option (List UInt8)) : Prop :=
  ∃ d e, file = some d ∧ file' = some e ∧ d.length = e.length ∧
    ∀ k, k < superblockSize ∨ blockSize ≤ k → d[k]? = e[k]?

variable {g : Geometry} {s t : World} {v : View}

/-! ## One command -/

theorem TypedCommand.call_runs (c : TypedCommand) (hv : Steady g v) (now : UInt64) :
    ∃ r v', Runs (view g) v (c.call.run now) r v' ∧ Steady g v' := by
  obtain ⟨cmd, args, call, htyped, hline⟩ := c
  have hshort : ShellCall.ArgsBelow lineSize call := by
    have hargs := shellLine_argsBelow (hline.length.trans_le (Nat.sub_le lineSize 1))
    rwa [htyped.shellLine hline.newline] at hargs
  have hlt : lineSize ≤ 2 ^ 17 := by decide
  have hcommand (c : Command) (hc : c.ArgsBelow (2 ^ 17)) :
      ∃ r v', Runs (view g) v (runCommand c) r v' ∧ Steady g v' := by
    obtain ⟨r, v', hrun, hv', -⟩ := runCommand_runs hv hc
    exact ⟨r, v', hrun, hv'⟩
  cases call with
  | file op => exact hcommand (.file ⟨op, now⟩) fun s hs => (hshort s hs).trans_le hlt
  | ls => exact hcommand .ls trivial
  | stat name => exact hcommand (.stat name) (Nat.lt_of_lt_of_le hshort hlt)
  | statfs => exact hcommand .statfs trivial
  | fsck => exact hcommand .fsck trivial
  | perf => exact ⟨0, v, Runs.pure v 0, hv⟩
  | unknown cmd => exact ⟨0, v, Runs.pure v 0, hv⟩
  | format totalSize blockSize =>
    cases htyped with
    | plain hcall => cases hcall

/-- A body between `fs_mount` and `fs_unmount`. -/
theorem mounted_eq {body : M Exit} {w s s' u : World} {e : Exit} (hmount : fsMount w = some (0, s))
    (hbody : body s = some (e, s')) (hunmount : fsUnmount s' = some ((), u)) :
    mounted body w = some (e, u) := by
  rw [mounted, bind_apply, hmount, Option.bind_some]
  change (body >>= fun e => fsUnmount >>= fun _ => pure e) s = _
  rw [bind_apply, hbody, Option.bind_some, bind_apply, hunmount]
  rfl

/-- The process for a command: it mounts, makes the call and unmounts. -/
theorem TypedCommand.runProcess_eq (c : TypedCommand) (arg0 : CStr) (now : UInt64) (m : Memory)
    (t : Terminal) {s s' u : World} {r : Int} (hmount : fsMount (t.start m) = some (0, s))
    (hcall : c.call.run now s = some (r, s')) (hunmount : fsUnmount s' = some ((), u)) :
    ∃ e : Exit, e.said = none ∧ runProcess (c.process arg0 now m) t = some (e, terminal u) := by
  obtain ⟨hformat, hshell, -, -⟩ := c.typed.cmd_ne
  obtain ⟨f, hsaid, hmain⟩ := c.typed.main now
  refine ⟨f r, hsaid r, ?_⟩
  have hrun : main (fun _ => now) [] (arg0 :: c.cmd :: c.args) (t.start m) = some (f r, u) := by
    simp only [main, if_neg hformat, if_neg hshell]
    refine mounted_eq hmount ?_ hunmount
    rw [hmain, bind_apply, hcall, Option.bind_some, pure_apply]
  rw [runProcess, TypedCommand.process, hrun]
  rfl

/-- The shell reads the first line, makes its call and goes on. -/
theorem fsShell_typedInput (c : TypedCommand) (cs : List TypedCommand) :
    fsShell (typedInput (c :: cs)) = .call c.call (fsShell (typedInput cs)) := by
  rw [typedInput, fsShell_short c.oneLine.newline c.oneLine.length (.inl rfl),
    c.typed.shellLine c.oneLine.newline]
  rfl

/-! ## All commands -/

/-- A shell in the state `s`, and processes on the disk file of `t`. They show one view all along,
and differ in what no command looks at. -/
theorem shell_processes (cs : List (TypedCommand × Memory)) (arg0 : CStr) (clock : ℕ → UInt64)
    (hs : Represents g s v) (ht : Represents g t v) (hsame : Same g s t) (hv : Steady g v)
    (hstamp : v.stamped = false) :
    ∃ exits s' t' v', (fsShell (typedInput (cs.map Prod.fst))).run clock s = some ((), s') ∧
      (∀ e ∈ exits, e.said = none) ∧
      runList runProcess (oneByOne arg0 clock cs) (terminal t) = some (exits, terminal t') ∧
      Represents g s' v' ∧ Represents g t' v' ∧ Same g s' t' ∧ Steady g v' := by
  induction cs generalizing clock s t v with
  | nil =>
    refine ⟨[], s, t, v, ?_, fun e he => (List.not_mem_nil he).elim, rfl, hs, ht, hsame, hv⟩
    rw [List.map_nil, typedInput, fsShell_nil]
    rfl
  | cons c cs ih =>
    obtain ⟨c, m⟩ := c
    -- the process starts in `p`, which the shell cannot be told from
    have hmount : fsMount ((terminal t).start m) =
        some (0, { t with behindSb := m.1, garbage := m.2 }) := fsMount_same ht hv rfl rfl
    have hp : Represents g { t with behindSb := m.1, garbage := m.2 } v :=
      ht.restarted fun hstamped => absurd (hstamp.symm.trans hstamped) Bool.false_ne_true
    have hsp : Same g s { t with behindSb := m.1, garbage := m.2 } :=
      hsame.trans { Same.refl ht with }
    obtain ⟨r, v1, hcall, hv1⟩ := c.call_runs hv (clock 0)
    obtain ⟨s1, p1, hs1, hp1, hreps, hrepp, -, -, hsame1⟩ := hcall.exec_same hs hp hsp
    have hunmount := fsUnmount_ready hrepp hv1
    obtain ⟨e, hsaid, hprocess⟩ := c.runProcess_eq arg0 (clock 0) m (terminal t) hmount hp1 hunmount
    have hrest : Represents g (stamp g p1) { v1 with stamped := false } :=
      (stamp_represents hrepp hv1).restamp (b := false) fun h => absurd h Bool.false_ne_true
    obtain ⟨exits, s', t', v', hshell, hsaids, hprocesses, hfinal⟩ := ih (fun k => clock (k + 1))
      (hreps.restamp (b := false) fun h => absurd h Bool.false_ne_true) hrest
      (hsame1.trans (stamp_same hrepp hv1)) ⟨hv1.sound, hv1.faults⟩ rfl
    refine ⟨e :: exits, s', t', v', ?_, List.forall_mem_cons.mpr ⟨hsaid, hsaids⟩, ?_, hfinal⟩
    · rw [List.map_cons, fsShell_typedInput, ShellRun.run, bind_apply, hs1, Option.bind_some]
      exact hshell
    · rw [oneByOne, runList, bind_apply, hprocess, Option.bind_some, bind_apply]
      change (runList runProcess _ (terminal (stamp g p1))).bind _ = _
      rw [hprocesses]
      rfl

/-- On every disk file with a file system, a shell that reads commands leaves the screen and the
disk like processes that run one of them each. -/
theorem shell_eq_processes {w : World} (hw : Mounted w) (out : List Message) (arg0 : CStr)
    (clock : ℕ → UInt64) (cs : List (TypedCommand × Memory)) (m : Memory) :
    ∃ exits t t', runList runProcess (oneByOne arg0 clock cs) ⟨w.file, out⟩ = some (exits, t) ∧
      (∀ e ∈ exits, e.said = none) ∧
      runProcess (oneShell arg0 clock (cs.map Prod.fst) m) ⟨w.file, out⟩ = some (⟨0, none⟩, t') ∧
      t.out = t'.out ∧ SameDisk w.sb.blockSize.toNat t.file t'.file := by
  obtain ⟨g, v, hrep, hv⟩ := hw.steady
  have hstart : Represents g { w with out := out } { v with out := out, stamped := false } :=
    { hrep.restamp (b := false) fun h => absurd h Bool.false_ne_true with out := rfl }
  have hv0 : Steady g { v with out := out, stamped := false } := ⟨hv.sound, hv.faults⟩
  have hmount : fsMount (Terminal.start ⟨w.file, out⟩ m) =
      some (0, { w with behindSb := m.1, garbage := m.2, out := out }) :=
    fsMount_same (s := { w with out := out }) (t := Terminal.start ⟨w.file, out⟩ m) hstart hv0
      rfl rfl
  have hshell : Represents g { w with behindSb := m.1, garbage := m.2, out := out }
      { v with out := out, stamped := false } :=
    hstart.restarted fun h => absurd h Bool.false_ne_true
  have hsame : Same g { w with behindSb := m.1, garbage := m.2, out := out } { w with out := out } :=
    { Same.refl hstart with }
  obtain ⟨exits, s', t', v', hrun, hsaid, hprocesses, hs', ht', hfinal, hv'⟩ :=
    shell_processes cs arg0 clock hshell hstart hsame hv0 rfl
  have hunmount := fsUnmount_ready hs' hv'
  have hmain : main clock (typedInput (cs.map Prod.fst)) [arg0, shellWord]
      (Terminal.start ⟨w.file, out⟩ m) = some (⟨0, none⟩, { stamp g s' with fd := .closed }) := by
    have hformat : shellWord.bytes ≠ ascii ['f', 'o', 'r', 'm', 'a', 't'] := by decide
    have hword : shellWord.bytes = ascii ['s', 'h', 'e', 'l', 'l'] := rfl
    simp only [main, if_neg hformat, if_pos hword]
    refine mounted_eq hmount ?_ hunmount
    rw [bind_apply, hrun, Option.bind_some, pure_apply]
  refine ⟨exits, terminal t', ⟨(stamp g s').file, s'.out⟩, hprocesses, hsaid, ?_, ?_, ?_⟩
  · rw [runProcess, oneShell, hmain]
    rfl
  · exact ht'.out.trans hs'.out.symm
  · obtain ⟨d, e, hd, he, hagree⟩ := ((stamp_same hs' hv').file)
    obtain ⟨d', e', hd', he', hagree'⟩ := hfinal.file
    obtain rfl : d = d' := Option.some.inj (hd.symm.trans hd')
    obtain ⟨hlen, hbytes⟩ := hagree'.symm.trans hagree
    have hsize : w.sb.blockSize.toNat = g.blockSize := by
      rw [hrep.sb]
      exact hv.sound.layout.blockSize
    exact ⟨e', e, he', he, hlen, fun k hk => hbytes k (hsize ▸ hk)⟩

def appendWords : TypedCommand where
  cmd := literal ['a', 'p', 'p', 'e', 'n', 'd']
  args := [literal ['a'], literal ['h', 'i', ' ', 'h', 'o']]
  call := .file (.append (literal ['a']) (literal ['h', 'i', ' ', 'h', 'o']))
  typed := @Typed.store _ .append _ _ [ascii ['h', 'i'], ascii ['h', 'o']] rfl (by decide) rfl
    (List.cons_ne_nil _ _) (by decide) (by decide) (by decide)
  oneLine := ⟨by decide, by decide⟩

def statWord : TypedCommand where
  cmd := literal ['s', 't', 'a', 't']
  args := [literal ['a']]
  call := .stat (literal ['a'])
  typed := .plain (.stat rfl) (by decide)
  oneLine := ⟨by decide, by decide⟩

def appendStat : List (TypedCommand × Memory) :=
  [(appendWords, fun _ => 0, fun k => k.toUInt8), (statWord, fun _ => 255, fun _ => 1)]

theorem shell_eq_processes_appendStat :
    ∃ (w : World) (exits : List Exit) (t t' : Terminal), Mounted w ∧
      runList runProcess (oneByOne shellWord Nat.toUInt64 appendStat) ⟨w.file, []⟩ =
        some (exits, t) ∧
      (∀ e ∈ exits, e.said = none) ∧
      runProcess (oneShell shellWord Nat.toUInt64 (appendStat.map Prod.fst)
        (fun _ => 7, fun _ => 7)) ⟨w.file, []⟩ = some (⟨0, none⟩, t') ∧
      t.out = t'.out ∧ SameDisk w.sb.blockSize.toNat t.file t'.file := by
  obtain ⟨w, hw, -⟩ := exists_twoBytes
  obtain ⟨exits, t, t', h⟩ :=
    shell_eq_processes hw [] shellWord Nat.toUInt64 appendStat (fun _ => 7, fun _ => 7)
  exact ⟨w, exits, t, t', hw, h⟩

end MiniFs.Properties

import MiniFs.Core.Shell

/-! # The command line (`main.c`)

A process runs one command. What `main` itself prints is given back with its exit
code; the logger and the performance counters are left out.
-/

set_option autoImplicit false

namespace MiniFs.Core
open Library Library.Exec

/-! ## The shell of a process -/

/-- What `fs_shell` does for a call. It drops the answer, which is kept here; that of a format is
the answer of `fs_format`. The report of `fs_perf` reads no file-system state. -/
def ShellCall.run (now : UInt64) : ShellCall → M Int
  | .file op => runOp now op
  | .ls => fsLs
  | .stat name => fsStat name
  | .statfs => fsStatfs
  | .fsck => fsFsck
  | .perf => pure 0
  | .format totalSize blockSize => do
    let (formatted, _) ← shellFormat now totalSize blockSize
    pure formatted
  | .unknown _ => pure 0

/-- `clock k` is the time of the call after `k` others. -/
def ShellRun.run (clock : ℕ → UInt64) : ShellRun → M Unit
  | .left => pure ()
  | .overflow => stuck
  | .call c run => do
    let _ ← c.run (clock 0)
    run.run fun k => clock (k + 1)

/-! ## One command -/

inductive MainMessage where
  /-- `print_usage()` -/
  | usage
  /-- "Usage: ./mini_fs %s ..." with the arguments of the command -/
  | commandUsage (cmd : CStr)
  /-- "Failed to mount. Did you run 'format'?" -/
  | failedToMount
  /-- "Unknown command: '%s'", and `print_usage()` -/
  | unknown (cmd : CStr)

/-- The exit code of a process, and what `main` has printed. -/
structure Exit where
  code : Int
  said : Option MainMessage

def Exit.of (ret : Int) : Exit := ⟨if ret = 0 then 0 else 1, none⟩

def Exit.wrongArgs (cmd : CStr) : Exit := ⟨1, some (.commandUsage cmd)⟩

/-- The chain of `strcmp`s behind the mount; `args` are the arguments from `argv[2]` on. -/
def mainCommand (now : UInt64) (cmd : CStr) (args : List CStr) : M Exit :=
  if cmd.bytes = ascii ['c', 'r', 'e', 'a', 't', 'e'] then match args with
    | [name] => do pure (.of (← fsCreate now name))
    | _ => pure (.wrongArgs cmd)
  else if cmd.bytes = ascii ['r', 'm'] then match args with
    | [name] => do pure (.of (← fsDelete name))
    | _ => pure (.wrongArgs cmd)
  else if cmd.bytes = ascii ['w', 'r', 'i', 't', 'e'] then match args with
    | [name, data] => do pure (.of (← fsWrite now name data))
    | _ => pure (.wrongArgs cmd)
  else if cmd.bytes = ascii ['a', 'p', 'p', 'e', 'n', 'd'] then match args with
    | [name, data] => do pure (.of (← fsAppend now name data))
    | _ => pure (.wrongArgs cmd)
  else if cmd.bytes = ascii ['r', 'e', 'a', 'd'] then match args with
    | [name] => do pure (.of (← fsRead now name))
    | _ => pure (.wrongArgs cmd)
  else if cmd.bytes = ascii ['r', 'e', 'n', 'a', 'm', 'e'] then match args with
    | [oldName, newName] => do pure (.of (← fsRename now oldName newName))
    | _ => pure (.wrongArgs cmd)
  else if cmd.bytes = ascii ['c', 'p'] then match args with
    | [src, dst] => do pure (.of (← fsCopy now src dst))
    | _ => pure (.wrongArgs cmd)
  else if cmd.bytes = ascii ['s', 't', 'a', 't'] then match args with
    | [name] => do pure (.of (← fsStat name))
    | _ => pure (.wrongArgs cmd)
  else if cmd.bytes = ascii ['c', 'h', 'm', 'o', 'd'] then match args with
    | [name, mode] => do pure (.of (← fsChmod now name (UInt16.ofInt (strtol mode 8))))
    | _ => pure (.wrongArgs cmd)
  else if cmd.bytes = ascii ['t', 'r', 'u', 'n', 'c', 'a', 't', 'e'] then match args with
    | [name, newSize] => do pure (.of (← fsTruncateFile now name (atoi newSize)))
    | _ => pure (.wrongArgs cmd)
  else if cmd.bytes = ascii ['l', 's'] then do
    let _ ← fsLs
    pure ⟨0, none⟩
  else if cmd.bytes = ascii ['s', 't', 'a', 't', 'f', 's'] then do
    let _ ← fsStatfs
    pure ⟨0, none⟩
  else if cmd.bytes = ascii ['f', 's', 'c', 'k'] then do
    pure (.of (← fsFsck))
  else if cmd.bytes = ascii ['p', 'e', 'r', 'f'] then
    pure ⟨0, none⟩
  else
    pure ⟨1, some (.unknown cmd)⟩

def mounted (body : M Exit) : M Exit := do
  if (← fsMount) < 0 then
    pure ⟨1, some .failedToMount⟩
  else
    let e ← body
    fsUnmount
    pure e

/-- `input` is what the shell reads. -/
def main (clock : ℕ → UInt64) (input : List UInt8) : (argv : List CStr) → M Exit
  | _ :: cmd :: args =>
    if cmd.bytes = ascii ['f', 'o', 'r', 'm', 'a', 't'] then match args with
      | [totalSize, blockSize] => do
        pure (.of (← fsFormat (clock 0) (atoi totalSize) (atoi blockSize)))
      | _ => pure (.wrongArgs cmd)
    else if cmd.bytes = ascii ['s', 'h', 'e', 'l', 'l'] then
      mounted do
        (fsShell input).run clock
        pure ⟨0, none⟩
    else
      mounted (mainCommand (clock 0) cmd args)
  | _ => pure ⟨1, some .usage⟩

end MiniFs.Core

import MiniFs.Core.Main
import MiniFs.Properties.Shell

/-! # One command on the command line and in the shell

The arguments of a process, joined by single spaces, are a line of the shell. If they
are as many as `main` asks for and no blank splits them in two, the line makes the
shell call what `main` calls. The text of `write` and `append` may have single spaces
in it, which the shell takes out and puts back.
-/

set_option autoImplicit false

namespace MiniFs.Properties
open MiniFs.Core Library Library.Exec Library.Words

/-- The calls of `main` behind its mount, by the words of its arguments. That of `perf` is not
one of them: its counters are those of the process. -/
inductive OneCall (cmd : CStr) : List CStr → ShellCall → Prop
  | ls (hcmd : cmd.bytes = ascii ['l', 's']) : OneCall cmd [] .ls
  | statfs (hcmd : cmd.bytes = ascii ['s', 't', 'a', 't', 'f', 's']) : OneCall cmd [] .statfs
  | fsck (hcmd : cmd.bytes = ascii ['f', 's', 'c', 'k']) : OneCall cmd [] .fsck
  | create {name : CStr} (hcmd : cmd.bytes = ascii ['c', 'r', 'e', 'a', 't', 'e']) :
      OneCall cmd [name] (.file (.create name))
  | delete {name : CStr} (hcmd : cmd.bytes = ascii ['r', 'm']) :
      OneCall cmd [name] (.file (.delete name))
  | read {name : CStr} (hcmd : cmd.bytes = ascii ['r', 'e', 'a', 'd']) :
      OneCall cmd [name] (.file (.read name))
  | stat {name : CStr} (hcmd : cmd.bytes = ascii ['s', 't', 'a', 't']) :
      OneCall cmd [name] (.stat name)
  | rename {oldName newName : CStr} (hcmd : cmd.bytes = ascii ['r', 'e', 'n', 'a', 'm', 'e']) :
      OneCall cmd [oldName, newName] (.file (.rename oldName newName))
  | copy {src dst : CStr} (hcmd : cmd.bytes = ascii ['c', 'p']) :
      OneCall cmd [src, dst] (.file (.copy src dst))
  | chmod {name mode : CStr} (hcmd : cmd.bytes = ascii ['c', 'h', 'm', 'o', 'd']) :
      OneCall cmd [name, mode] (.file (.chmod name (UInt16.ofInt (strtol mode 8))))
  | truncate {name newSize : CStr}
      (hcmd : cmd.bytes = ascii ['t', 'r', 'u', 'n', 'c', 'a', 't', 'e']) :
      OneCall cmd [name, newSize] (.file (.truncate name (atoi newSize)))

def typedLine (cmd : CStr) (args : List CStr) : List UInt8 :=
  [32].intercalate ((cmd :: args).map CStr.bytes)

/-- The arguments make this call, and can be typed: as words, or as two words and a text. -/
inductive Typed (cmd : CStr) : List CStr → ShellCall → Prop
  | plain {args : List CStr} {call : ShellCall} (hcall : OneCall cmd args call)
      (hwords : ∀ s ∈ cmd :: args, IsWord isBlank s.bytes) : Typed cmd args call
  | store {store : StoreCmd} {name data : CStr} {ws : List (List UInt8)}
      (hcmd : cmd.bytes = store.bytes) (hname : IsWord isBlank name.bytes)
      (htext : data.bytes = [32].intercalate ws) (hne : ws ≠ [])
      (hwords : ∀ w ∈ ws, IsWord isBlank w) (hargs : ws.length + 2 ≤ maxArgs)
      (hdata : data.strlen < dataSize) : Typed cmd [name, data] (.file (store.op name data))

/-- The line is read in one piece. -/
structure OneLine (line : List UInt8) : Prop where
  newline : 10 ∉ line
  length : line.length < lineSize - 1

variable {cmd : CStr} {args : List CStr} {call : ShellCall}

/-! ## On the command line -/

theorem OneCall.main (h : OneCall cmd args call) (now : UInt64) :
    ∃ f : Int → Exit, (∀ r, (f r).said = none) ∧
      mainCommand now cmd args = (do pure (f (← call.run now))) := by
  cases h with
  | ls hcmd =>
    exact ⟨fun _ => ⟨0, none⟩, fun _ => rfl, by simp [mainCommand, hcmd, ascii, ShellCall.run]⟩
  | statfs hcmd =>
    exact ⟨fun _ => ⟨0, none⟩, fun _ => rfl, by simp [mainCommand, hcmd, ascii, ShellCall.run]⟩
  | _ =>
    exact ⟨.of, fun _ => rfl, by simp_all [mainCommand, ascii, ShellCall.run, runOp]⟩

theorem Typed.main (h : Typed cmd args call) (now : UInt64) :
    ∃ f : Int → Exit, (∀ r, (f r).said = none) ∧
      mainCommand now cmd args = (do pure (f (← call.run now))) := by
  cases h with
  | plain hcall => exact hcall.main now
  | @store store name data ws hcmd =>
    cases store with
    | write => exact ⟨.of, fun _ => rfl, by
        simp [mainCommand, hcmd, ascii, ShellCall.run, StoreCmd.bytes, StoreCmd.op, runOp]⟩
    | append => exact ⟨.of, fun _ => rfl, by
        simp [mainCommand, hcmd, ascii, ShellCall.run, StoreCmd.bytes, StoreCmd.op, runOp]⟩

/-- Neither `format` nor `shell`, nor the words that leave the shell. -/
theorem Typed.cmd_ne (h : Typed cmd args call) :
    cmd.bytes ≠ ascii ['f', 'o', 'r', 'm', 'a', 't'] ∧
      cmd.bytes ≠ ascii ['s', 'h', 'e', 'l', 'l'] ∧
      cmd.bytes ≠ ascii ['e', 'x', 'i', 't'] ∧ cmd.bytes ≠ ascii ['q', 'u', 'i', 't'] := by
  cases h with
  | plain hcall => cases hcall <;> simp_all [ascii]
  | @store store _ _ _ hcmd => cases store <;> simp_all [ascii, StoreCmd.bytes]

/-! ## In the shell -/

theorem OneCall.dispatch (h : OneCall cmd args call) :
    Core.dispatch (cmd :: args) = .call call := by
  cases h <;> simp_all [Core.dispatch, ascii]

theorem OneCall.length_le (h : OneCall cmd args call) : args.length ≤ 2 := by
  cases h <;> simp

theorem bytes_injective : Function.Injective CStr.bytes := by
  rintro ⟨a, ha⟩ ⟨b, hb⟩ rfl
  rfl

/-- A line of words of which the first does not leave the shell. -/
theorem shellLine_of_words {line w : List UInt8} {ws : List (List UInt8)} (h0 : 0 ∉ line)
    (h10 : 10 ∉ line) (hwords : words isBlank line = w :: ws)
    (hexit : w ≠ ascii ['e', 'x', 'i', 't']) (hquit : w ≠ ascii ['q', 'u', 'i', 't']) :
    shellLine line = Core.dispatch (tokenize maxArgs (stripNewline line)) := by
  have htext := stripNewline_bytes h0 h10
  have hlen : (stripNewline line).strlen ≠ 0 := by
    intro hlen
    have hnil : line = [] := htext.symm.trans (List.length_eq_zero_iff.mp hlen)
    rw [hnil] at hwords
    cases hwords
  have hleave : ¬((stripNewline line).bytes = ascii ['e', 'x', 'i', 't'] ∨
      (stripNewline line).bytes = ascii ['q', 'u', 'i', 't']) := by
    rw [htext]
    rintro (rfl | rfl)
    · exact hexit (List.cons.inj hwords).1.symm
    · exact hquit (List.cons.inj hwords).1.symm
  simp only [shellLine, if_neg hlen, if_neg hleave]

theorem zero_notMem_typedLine (cmd : CStr) (args : List CStr) : 0 ∉ typedLine cmd args := by
  rw [typedLine, List.map_cons, intercalate_cons]
  intro h0
  rcases List.mem_append.mp h0 with h0 | h0
  · exact cmd.noNul h0
  · obtain ⟨w, hw, h0⟩ := List.mem_flatMap.mp h0
    obtain ⟨s, -, rfl⟩ := List.mem_map.mp hw
    rcases List.mem_cons.mp h0 with h0 | h0
    · exact absurd h0 (by decide)
    · exact s.noNul h0

theorem Typed.shellLine (h : Typed cmd args call) (hline : 10 ∉ typedLine cmd args) :
    Core.shellLine (typedLine cmd args) = .call call := by
  have h0 := zero_notMem_typedLine cmd args
  have htext := stripNewline_bytes h0 hline
  obtain ⟨-, -, hexit, hquit⟩ := h.cmd_ne
  cases h with
  | plain hcall hwords =>
    have hsplit : words isBlank (typedLine cmd args) = (cmd :: args).map CStr.bytes :=
      words_intercalate rfl (by simpa using hwords)
    rw [shellLine_of_words h0 hline hsplit hexit hquit]
    have htokens := tokenize_bytes maxArgs (stripNewline (typedLine cmd args))
    have hshort : ((cmd :: args).map CStr.bytes).length ≤ maxArgs := by
      rw [List.length_map, List.length_cons]
      exact (Nat.succ_le_succ hcall.length_le).trans (by decide)
    rw [htext, hsplit, List.take_of_length_le hshort] at htokens
    rw [(List.map_injective_iff.mpr bytes_injective) htokens]
    exact hcall.dispatch
  | @store store name data ws hcmd hname hdata hne hwords hargs hlen =>
    have hline' : typedLine cmd [name, data] = [32].intercalate (cmd.bytes :: name.bytes :: ws) := by
      obtain ⟨w, ws, rfl⟩ := List.exists_cons_of_ne_nil hne
      simp only [typedLine, List.map_cons, List.map_nil, hdata, List.intercalate_cons_cons,
        List.intercalate_singleton]
    have hcmdWord : IsWord isBlank cmd.bytes := by
      rw [hcmd]
      cases store <;> decide
    have hsplit : words isBlank (typedLine cmd [name, data]) = store.bytes :: name.bytes :: ws := by
      rw [hline', words_intercalate rfl, hcmd]
      exact List.forall_mem_cons.mpr ⟨hcmdWord, List.forall_mem_cons.mpr ⟨hname, hwords⟩⟩
    rw [← htext] at hsplit
    rw [CStr.strlen, hdata] at hlen
    obtain ⟨n, d, hn, hd, hcall⟩ := shellLine_store hsplit hne hargs hlen
    rw [hcall, bytes_injective hn, bytes_injective (hd.trans hdata.symm)]

end MiniFs.Properties

import MiniFs.Properties.Processes
import MiniFs.Properties.Shell
import MiniFs.Simulator.Formats

/-! # Numbers on the command line

`atoi` and `parseInt` take what digits there are in front and give 0 or NaN for none. Nothing
looks at the rest of the argument, so a malformed one is only rejected where the number read
from it is: by `truncate` if it is above the size of the file, by `format` if the block size is
below that of an inode. The page has no check that NaN fails.
-/

set_option autoImplicit false

namespace MiniFs.Properties
open MiniFs.Core MiniFs.Image Library Library.Exec

def unsigned : List ℕ → List ℕ
  | 43 :: s => s
  | 45 :: s => s
  | s => s

/-- A sign or none, then digits and nothing else. -/
def IsNumeral (s : List ℕ) : Prop := unsigned s ≠ [] ∧ ∀ c ∈ unsigned s, 48 ≤ c ∧ c ≤ 57

instance (s : List ℕ) : Decidable (IsNumeral s) := inferInstanceAs (Decidable (_ ∧ _))

/-! ## What a command leaves alone -/

/-- The shell rejects the line, and the process and its disk show what they did. -/
def ShellSpares (now : UInt64) (line : List UInt8) (w : World) : Prop :=
  ∃ c w', shellLine line = .call c ∧ c.run now w = some (-1, w') ∧ shown w' = shown w ∧
    catalog w'.file = catalog w.file

/-- The process exits with 1, and its disk shows what it did. -/
def MainSpares (clock : ℕ → UInt64) (input : List UInt8) (argv : List CStr) (w : World) : Prop :=
  ∃ e w', main clock input argv w = some (e, w') ∧ e.code = 1 ∧ catalog w'.file = catalog w.file

/-- The page gives an error and keeps its state. -/
def PageSpares (ts raw : Simulator.JsString) (fs : Simulator.Numbers.FS) : Prop :=
  ∃ reply, Simulator.Numbers.parseAndRun ts raw fs = some (reply, fs) ∧ reply.ok = false

theorem shellSpares_iff {now : UInt64} {line : List UInt8} {w w' : World} {c : ShellCall} {r : Int}
    (hline : shellLine line = .call c) (hrun : c.run now w = some (r, w')) :
    ShellSpares now line w ↔ r = -1 ∧ shown w' = shown w ∧ catalog w'.file = catalog w.file := by
  constructor
  · rintro ⟨c', t, hc, ht, hkept⟩
    obtain rfl := LineResult.call.inj (hline.symm.trans hc)
    obtain ⟨rfl, rfl⟩ := run_unique hrun ht
    exact ⟨rfl, hkept⟩
  · rintro ⟨rfl, hkept⟩
    exact ⟨c, w', hline, hrun, hkept⟩

theorem mainSpares_iff {clock : ℕ → UInt64} {input : List UInt8} {argv : List CStr} {w w' : World}
    {e : Exit} (hrun : main clock input argv w = some (e, w')) :
    MainSpares clock input argv w ↔ e.code = 1 ∧ catalog w'.file = catalog w.file := by
  constructor
  · rintro ⟨e', t, ht, hkept⟩
    obtain ⟨rfl, rfl⟩ := run_unique hrun ht
    exact hkept
  · exact fun hkept => ⟨e, w', hrun, hkept⟩

theorem pageSpares_iff {ts raw : Simulator.JsString} {fs : Simulator.Numbers.FS}
    {p : Simulator.Numbers.Reply × Simulator.Numbers.FS}
    (hrun : Simulator.Numbers.parseAndRun ts raw fs = some p) :
    PageSpares ts raw fs ↔ p.1.ok = false ∧ p.2 = fs := by
  rw [PageSpares, hrun]
  constructor
  · rintro ⟨reply, hreply, hok⟩
    obtain rfl := Option.some.inj hreply
    exact ⟨hok, rfl⟩
  · rintro ⟨hok, hkept⟩
    exact ⟨p.1, congrArg some (Prod.ext rfl hkept), hok⟩

/-! ## The commands -/

section Words
variable {line : List UInt8} {cmd a b : CStr} {rest : List CStr}

abbrev truncateWord : List Char := ['t', 'r', 'u', 'n', 'c', 'a', 't', 'e']
abbrev formatWord : List Char := ['f', 'o', 'r', 'm', 'a', 't']

theorem shellLine_words (h : tokenize maxArgs (stripNewline line) = cmd :: a :: b :: rest) :
    shellLine line = dispatch (cmd :: a :: b :: rest) := by
  rw [← h]
  apply shellLine_eq
  have hlen := congrArg List.length (tokenize_bytes maxArgs (stripNewline line))
  rw [h, List.length_map, List.length_cons, List.length_cons, List.length_cons,
    List.length_take] at hlen
  omega

theorem dispatch_truncate (hcmd : cmd.bytes = ascii truncateWord) :
    dispatch (cmd :: a :: b :: rest) = .call (.file (.truncate a (atoi b))) := by
  simp +decide only [dispatch, hcmd, if_true, if_false]

theorem dispatch_format (hcmd : cmd.bytes = ascii formatWord) :
    dispatch (cmd :: a :: b :: rest) = .call (.format (atoi a) (atoi b)) := by
  simp +decide only [dispatch, hcmd, if_true, if_false]

theorem main_truncate (hcmd : cmd.bytes = ascii truncateWord) (clock : ℕ → UInt64)
    (input : List UInt8) (arg0 : CStr) : main clock input [arg0, cmd, a, b] =
      mounted (do pure (.of (← fsTruncateFile (clock 0) a (atoi b)))) := by
  simp +decide only [main, mainCommand, hcmd, if_true, if_false]

theorem main_format (hcmd : cmd.bytes = ascii formatWord) (clock : ℕ → UInt64)
    (input : List UInt8) (arg0 : CStr) : main clock input [arg0, cmd, a, b] =
      (do pure (.of (← fsFormat (clock 0) (atoi a) (atoi b)))) := by
  simp +decide only [main, hcmd, if_true]

end Words

/-! ## Truncation -/

section Truncate
variable {g : Geometry} {w : World} {v : View} {now : UInt64} {name : CStr} {n : UInt32}

theorem fsTruncateFile_cases (h : Represents g w v) (hv : Steady g v) (now : UInt64) (name : CStr)
    (n : UInt32) : ∃ r w' v', fsTruncateFile now name n w = some (r, w') ∧ Represents g w' v' ∧
      Steady g v' ∧ (r = 0 ∧ ¬(v.vol.catalog g).Shorter name n ∨
        r = -1 ∧ (v.vol.catalog g).Shorter name n ∧ v'.vol = v.vol) := by
  have hshorter : (v.vol.catalog g).Shorter name n ↔ ¬Admits g v.vol (.truncate name n) := by
    rw [Catalog.Shorter, Volume.catalog, Admits]
    cases hlook : v.vol.lookup name.bytes with
    | none => simp [hlook]
    | some x => simp [hlook]
  obtain ⟨r, w', v', hrun, hrep', hout, hv'⟩ := h.runCall hv (c := ⟨.truncate name n, now⟩)
    (hv.sound.fits (by trivial))
  refine ⟨r, w', v', hrun, hrep', hv', ?_⟩
  have hadmits := hout.admits_iff hv.sound (hv.sound.fits (by trivial))
  cases hout with
  | accepted _ _ => exact .inl ⟨rfl, fun hsh => hshorter.mp hsh (hadmits.mp rfl)⟩
  | rejected hrej hadv =>
    refine .inr ⟨rfl, hshorter.mpr fun hadm => absurd (hadmits.mpr hadm) (by decide), ?_⟩
    cases hrej <;> exact hadv.vol

theorem shellTruncate_iff {line : List UInt8} {cmd a b : CStr} {rest : List CStr} (h : Mounted w)
    (hwords : tokenize maxArgs (stripNewline line) = cmd :: a :: b :: rest)
    (hcmd : cmd.bytes = ascii truncateWord) (now : UInt64) :
    ShellSpares now line w ↔ (shown w).Shorter a (atoi b) := by
  obtain ⟨g, v, hrep, hv⟩ := h.steady
  have hline : shellLine line = .call (.file (.truncate a (atoi b))) :=
    (shellLine_words hwords).trans (dispatch_truncate hcmd)
  obtain ⟨r, w', v', hrun, hrep', hv', hcases⟩ := fsTruncateFile_cases hrep hv now a (atoi b)
  have hcall : (ShellCall.file (.truncate a (atoi b))).run now w = some (r, w') := hrun
  rw [shellSpares_iff hline hcall, hrep'.shown_eq hv', hrep'.catalog_eq hv', hrep.shown_eq hv,
    hrep.catalog_eq hv]
  rcases hcases with ⟨rfl, hnot⟩ | ⟨rfl, hsh, hvol⟩
  · exact iff_of_false (fun hspares => absurd hspares.1 (by decide)) hnot
  · rw [hvol]
    exact iff_of_true ⟨rfl, rfl, rfl⟩ hsh

/-- The process of the command line, over a disk that mounts. -/
theorem main_truncate_run {cmd a b : CStr} (h : Represents g w v) (hv : Steady g v)
    (hcmd : cmd.bytes = ascii truncateWord) (clock : ℕ → UInt64) (input : List UInt8) (arg0 : CStr)
    (behindSb garbage : ℕ → UInt8) :
    ∃ r w' v', main clock input [arg0, cmd, a, b] (World.start w.file behindSb garbage) =
        some (.of r, w') ∧ catalog w'.file = some (Volume.catalog g v') ∧
      (r = 0 ∧ ¬(v.vol.catalog g).Shorter a (atoi b) ∨
        r = -1 ∧ (v.vol.catalog g).Shorter a (atoi b) ∧ v' = v.vol) := by
  obtain ⟨m, hmount, hrepm, hvm⟩ := h.mounts hv behindSb garbage
  obtain ⟨r, w', v', hrun, hrep', hv', hcases⟩ :=
    fsTruncateFile_cases hrepm hvm (clock 0) a (atoi b)
  have hstamp : catalog (stamp g w').file = some (v'.vol.catalog g) :=
    (stamp_represents hrep' hv').catalog_eq ⟨hv'.sound, hv'.faults⟩
  refine ⟨r, { stamp g w' with fd := .closed }, v'.vol, ?_, hstamp, hcases⟩
  rw [main_truncate hcmd, mounted, bind_apply, hmount, Option.bind_some]
  simp only [Int.lt_irrefl, if_false, bind_apply, hrun, Option.bind_some, pure_apply,
    fsUnmount_ready hrep' hv']

theorem mainTruncate_iff {file : Option (List UInt8)} {cmd a b : CStr} (h : AtRest file)
    (hcmd : cmd.bytes = ascii truncateWord) (clock : ℕ → UInt64) (input : List UInt8) (arg0 : CStr)
    (behindSb garbage : ℕ → UInt8) :
    MainSpares clock input [arg0, cmd, a, b] (World.start file behindSb garbage) ↔
      ∀ c, catalog file = some c → c.Shorter a (atoi b) := by
  cases h with
  | @mounted w h hfile =>
    subst hfile
    obtain ⟨g, v, hrep, hv⟩ := h.steady
    obtain ⟨r, w', vol, hmain, hcatalog, hcases⟩ :=
      main_truncate_run hrep hv hcmd clock input arg0 behindSb garbage
    have hshorter : (∀ c, catalog w.file = some c → c.Shorter a (atoi b)) ↔
        (v.vol.catalog g).Shorter a (atoi b) := by
      rw [hrep.catalog_eq hv]
      simp
    rw [hshorter, mainSpares_iff hmain]
    rcases hcases with ⟨rfl, hnot⟩ | ⟨rfl, hsh, rfl⟩
    · exact iff_of_false (fun hspares => absurd hspares.1 (by decide)) hnot
    · exact iff_of_true ⟨rfl, hcatalog.trans (hrep.catalog_eq hv).symm⟩ hsh
  | unmountable h =>
    obtain ⟨m, hmount⟩ := h behindSb garbage
    obtain ⟨m0, hmount0⟩ := h 0 0
    have hnone : catalog file = none := catalog_eq_none hmount0
    refine iff_of_true ⟨⟨1, some .failedToMount⟩, m, ?_, rfl, ?_⟩ ?_
    · rw [main_truncate hcmd, mounted, bind_apply, hmount]
      rfl
    · rw [fsMount_file rfl hmount]
    · intro c hc
      rw [hnone] at hc
      cases hc

end Truncate

/-! ## Formatting -/

section Format
variable {w w' : World} {now : UInt64} {totalSize blockSize : UInt32}

theorem mainFormat_iff {file : Option (List UInt8)} {cmd a b : CStr}
    (hcmd : cmd.bytes = ascii formatWord) (clock : ℕ → UInt64) (input : List UInt8) (arg0 : CStr)
    (behindSb garbage : ℕ → UInt8) :
    MainSpares clock input [arg0, cmd, a, b] (World.start file behindSb garbage) ↔
      atoi b < inodeSize ∨ catalog file = none ∧ TooSmall (atoi a) (atoi b) := by
  have hmain {r : Int} {t : World} (h : fsFormat (clock 0) (atoi a) (atoi b)
      (World.start file behindSb garbage) = some (r, t)) : main clock input [arg0, cmd, a, b]
        (World.start file behindSb garbage) = some (.of r, t) := by
    rw [main_format hcmd, bind_apply, h]
    rfl
  by_cases hsmall : atoi b < inodeSize
  · obtain ⟨t, hrun, hfile⟩ :=
      fsFormat_small (World.start file behindSb garbage) (clock 0) (atoi a) hsmall
    exact iff_of_true ((mainSpares_iff (hmain hrun)).mpr ⟨rfl, congrArg catalog hfile⟩)
      (.inl hsmall)
  rw [or_iff_right hsmall]
  constructor
  · rintro ⟨e, t, ht, hcode, hkept⟩
    rw [main_format hcmd] at ht
    obtain ⟨r, u, hrun, hret⟩ := bind_inv ht
    obtain ⟨rfl, rfl⟩ := returned_inj hret
    obtain rfl | ⟨-, htoo, hfile, -⟩ := fsFormat_cases rfl hsmall hrun
    · exact absurd hcode (by decide)
    · rw [hfile, catalog_zeros] at hkept
      exact ⟨hkept.symm, htoo⟩
  · rintro ⟨hnone, hbits, hno⟩
    have hbig := UInt32.not_lt.mp hsmall
    obtain ⟨t, hrun⟩ : ∃ t, fsFormat (clock 0) (atoi a) (atoi b)
        (World.start file behindSb garbage) = some (-1, t) :=
      fsFormat_tooSmall rfl hbig hbits (UInt32.not_lt.mp fun hroom => hno ⟨hbig, hbits, hroom⟩)
    obtain hzero | ⟨-, -, hfile, -⟩ := fsFormat_cases rfl hsmall hrun
    · exact absurd hzero (by decide)
    · rw [mainSpares_iff (hmain hrun), hfile, catalog_zeros]
      exact ⟨rfl, hnone.symm⟩

theorem shellFormat_iff {line : List UInt8} {cmd a b : CStr} {rest : List CStr} (h : Mounted w)
    (hwords : tokenize maxArgs (stripNewline line) = cmd :: a :: b :: rest)
    (hcmd : cmd.bytes = ascii formatWord) (now : UInt64) :
    ShellSpares now line w ↔ atoi b < inodeSize := by
  obtain ⟨g, v, hrep, hv⟩ := h.steady
  have hline : shellLine line = .call (.format (atoi a) (atoi b)) :=
    (shellLine_words hwords).trans (dispatch_format hcmd)
  constructor
  · rintro ⟨c, t, hc, hrun, -, hkept⟩
    obtain rfl := LineResult.call.inj (hline.symm.trans hc)
    by_contra hsmall
    rw [ShellCall.run] at hrun
    obtain ⟨⟨r, m⟩, u, hshell, hret⟩ := bind_inv hrun
    obtain ⟨rfl, rfl⟩ := returned_inj hret
    obtain ⟨f, hformat, hmount⟩ := shellFormat_inv hrep hv hshell
    -- the disk is cleared, and the mount behind the format changes nothing of that
    obtain hzero | ⟨-, -, hfile, hfaults⟩ :=
      fsFormat_cases (w := { stamp g w with fd := .closed }) (hrep.faults.trans hv.faults)
        hsmall hformat
    · exact absurd hzero (by decide)
    · rw [fsMount_file hfaults hmount, hfile, catalog_zeros, h.catalog_eq] at hkept
      cases hkept
  · intro hsmall
    obtain ⟨t, hrun, hrep'⟩ := shellFormat_small hrep hv now (atoi a) hsmall
    have hv' : Steady g { v with stamped := true, out := t.out } := ⟨hv.sound, hv.faults⟩
    have hcall : (ShellCall.format (atoi a) (atoi b)).run now w = some (-1, t) := by
      rw [ShellCall.run, bind_apply, hrun]
      rfl
    rw [shellSpares_iff hline hcall, hrep'.shown_eq hv', hrep'.catalog_eq hv', hrep.shown_eq hv,
      hrep.catalog_eq hv]
    exact ⟨rfl, rfl, rfl⟩

end Format

/-! ## The page -/

section Page
open Simulator (JsString parseInt smartSplit trim toLowerCase js)
open Simulator.Numbers (number slice Room Refused)
variable {raw word a b : JsString}

theorem pageTruncate_iff (hparts : smartSplit (trim raw) = [word, a, b])
    (hword : toLowerCase word = js truncateWord) (ts : JsString) (fs : Simulator.Numbers.FS) :
    PageSpares ts raw fs ↔ ∀ sb file, fs.superblock = some sb → fs.find a = some file →
      Double.lt file.size (number (parseInt b 0)) = true ∨
        ¬Room sb file.blocks.length (slice file.content (number (parseInt b 0))).length := by
  have hcommand : Simulator.parseCommand raw = .truncate a (parseInt b 0) := by
    rw [Simulator.parseCommand, hparts]
    simp +decide only [Simulator.parseParts, hword, if_true, if_false]
  have hrun : Simulator.Numbers.parseAndRun ts raw fs =
      some (Simulator.Numbers.fsTruncate ts a (number (parseInt b 0)) fs) := by
    rw [Simulator.Numbers.parseAndRun, hcommand]
  rw [pageSpares_iff hrun, and_iff_left_of_imp Simulator.Numbers.fsTruncate_refused,
    ← Bool.not_eq_true]
  cases hsb : fs.superblock with
  | none =>
    refine iff_of_true ?_ (by simp)
    rw [Simulator.Numbers.fsTruncate, hsb]
    exact Bool.false_ne_true
  | some sb =>
    rw [Simulator.Numbers.fsTruncate_ok_iff hsb]
    constructor
    · intro hno sb' file hsb' hfile
      obtain rfl := Option.some.inj hsb'
      by_contra hor
      rw [not_or, not_not, Bool.not_eq_true] at hor
      exact hno ⟨file, hfile, hor⟩
    · rintro hall ⟨file, hfile, hlt, hroom⟩
      rcases hall sb file rfl hfile with hgrow | hfull
      · exact Bool.false_ne_true (hlt.symm.trans hgrow)
      · exact hfull hroom

theorem pageFormat_iff (hparts : smartSplit (trim raw) = [word, a, b])
    (hword : toLowerCase word = js formatWord) (ts : JsString) (fs : Simulator.Numbers.FS) :
    PageSpares ts raw fs ↔ Refused (number (parseInt a 0)) (number (parseInt b 0)) := by
  have hcommand : Simulator.parseCommand raw = .format (parseInt a 0) (parseInt b 0) := by
    rw [Simulator.parseCommand, hparts]
    simp +decide only [Simulator.parseParts, hword, if_true, if_false]
  have hrun : Simulator.Numbers.parseAndRun ts raw fs =
      some (Simulator.Numbers.fsFormat ts (number (parseInt a 0)) (number (parseInt b 0)) fs) := by
    rw [Simulator.Numbers.parseAndRun, hcommand]
  rw [pageSpares_iff hrun, and_iff_left_of_imp Simulator.Numbers.fsFormat_refused,
    Simulator.Numbers.fsFormat_refused_iff]

end Page

/-! ## All of them -/

def abcLine : List UInt8 := [116, 114, 117, 110, 99, 97, 116, 101, 32, 97, 32, 97, 98, 99]
def xyLine : List UInt8 := [102, 111, 114, 109, 97, 116, 32, 120, 32, 121]
def abcText : Simulator.JsString := abcLine.map UInt8.toUInt16
def xyText : Simulator.JsString := xyLine.map UInt8.toUInt16

theorem abcLine_words : tokenize maxArgs (stripNewline abcLine) =
    [⟨ascii truncateWord, by decide⟩, ⟨[97], by decide⟩, ⟨[97, 98, 99], by decide⟩] := rfl

theorem xyLine_words : tokenize maxArgs (stripNewline xyLine) =
    [⟨ascii formatWord, by decide⟩, ⟨[120], by decide⟩, ⟨[121], by decide⟩] := rfl

theorem abcText_parts : Simulator.smartSplit (Simulator.trim abcText) =
    [Simulator.js truncateWord, [97], [97, 98, 99]] := by
  decide

theorem xyText_parts : Simulator.smartSplit (Simulator.trim xyText) =
    [Simulator.js formatWord, [120], [121]] := by
  decide

def oneFilePage : Simulator.Numbers.FS :=
  Simulator.Numbers.performAll [⟨.create [97], []⟩]
    (Simulator.Numbers.fsFormat [] (Simulator.Numbers.number (some 864))
      (Simulator.Numbers.number (some 144)) Simulator.Numbers.FS.start).2

theorem xyText_not_refused : ¬Simulator.Numbers.Refused
    (Simulator.Numbers.number (Simulator.parseInt [120] 0))
    (Simulator.Numbers.number (Simulator.parseInt [121] 0)) := by
  have hx : Simulator.parseInt [120] 0 = none := by decide
  have hy : Simulator.parseInt [121] 0 = none := by decide
  rw [hx, hy]
  rintro (hlt | ⟨_, hq, -⟩ | ⟨⟨_, hinf⟩, -⟩)
  · exact absurd hlt (by decide)
  · exact nomatch hq
  · exact nomatch hinf

theorem exists_twoBytes_shown : ∃ w, Mounted w ∧ ((shown w).files ⟨[97], by decide⟩).isSome ∧
    ¬(shown w).Shorter ⟨[97], by decide⟩ (atoi ⟨[97, 98, 99], by decide⟩) := by
  obtain ⟨w, hw, x, hx, hsize⟩ := exists_twoBytes
  have hfile : (shown w).files ⟨[97], by decide⟩ = some (x, w.content x) :=
    congrArg (Option.map fun x => (x, w.content x)) hx
  refine ⟨w, hw, by rw [hfile]; rfl, fun hshorter => ?_⟩
  have hlt := hshorter _ hfile
  rw [hsize] at hlt
  exact absurd hlt (by decide)

end MiniFs.Properties

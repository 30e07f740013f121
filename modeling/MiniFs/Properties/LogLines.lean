import MiniFs.Image.Observe
import MiniFs.Library.Triple
import MiniFs.Logger.Calls

/-! # Log lines

An entry of the log queue is one line of the log file if its message fits the 256 bytes
with a line end behind it and no name in it holds one. The names that are looked up and
those that are checked have less than 32 bytes and fit. The destination of a copy is
neither: it can fill the entry, and then nothing ends the line.
-/

set_option autoImplicit false

namespace MiniFs.Logger
open MiniFs.Core MiniFs.Image Library Library.Exec Library.Printf

/-- "[time] " -/
def stamp (time : CStr) : List UInt8 := 0x5B :: time.bytes ++ [0x5D, 0x20]

/-- The entry is NUL-terminated, begins with the time, ends with a line end and holds no other. -/
structure LogLine (time : CStr) (slot : List UInt8) : Prop where
  length : slot.length = logMsgLen
  terminated : 0 ∈ slot
  stamped : stamp time <+: shown slot
  line : IsLine 0x0A (shown slot)

theorem msgBuf_eq (time text : CStr) :
    msgBuf time text = cutLine 0x0A (logMsgLen - 1) (stamp time ++ text.bytes) := rfl

/-- When `fs_log` makes a line of a message. -/
theorem logLine_iff {time : CStr} (hshort : (stamp time).length < 255) (text : CStr) :
    LogLine time (slotOf (msgBuf time text)) ↔
      0x0A ∉ stamp time ++ text.bytes ∧ (stamp time ++ text.bytes).length < 255 ∨
        (stamp time ++ text.bytes).idxOf 0x0A + 1 = min 255 (stamp time ++ text.bytes).length := by
  have hlen := length_msgBuf time text
  have hmax : logMsgLen = 256 := rfl
  have hshown : shown (slotOf (msgBuf time text)) = msgBuf time text :=
    shown_slotOf (msgBuf_noNul time text) hlen
  have hcut : cutLine 0x0A 255 (stamp time ++ text.bytes) = shown (slotOf (msgBuf time text)) :=
    hshown.symm
  rw [← isLine_cutLine_iff, hcut]
  refine ⟨LogLine.line, fun h => ⟨?_, ?_, ?_, h⟩⟩
  · rw [slotOf, List.take_of_length_le hlen.le, List.rightpad, List.length_append,
      List.length_replicate]
    omega
  · rw [slotOf, List.take_of_length_le hlen.le, List.rightpad]
    exact List.mem_append_right _ (List.mem_replicate.mpr ⟨by omega, rfl⟩)
  · have htake : stamp time <+: (stamp time ++ text.bytes).take 255 :=
      (List.prefix_take_iff).mpr ⟨List.prefix_append _ _, hshort.le⟩
    rw [hshown, msgBuf_eq, cutLine]
    split_ifs
    · exact htake.trans (List.prefix_append _ _)
    · exact htake

/-! ## The names in a message -/

/-- The operation returns 0 from some state of process and disk. -/
def Accepts (m : Core.M Int) : Prop := ∃ w w', m w = some (0, w')

variable {name : CStr}

theorem nameEquals_short (x : Inode) :
    Triple (fun _ => True) (nameEquals x name) fun r _ => r = true → name.strlen < 32 := by
  refine Triple.require.bind fun _ => Triple.pure fun s h hr => ?_
  obtain ⟨-, hdefined⟩ := h
  have hname : x.shownName = name.bytes := of_decide_eq_true hr
  have hfield : x.name.toList.length = 32 := Vector.length_toList
  have hsub : x.shownName <+: x.name.toList := List.takeWhile_prefix _
  by_contra hlong
  -- then the field is the name, without a NUL, and the comparison reads on behind it
  have hfull : x.shownName = x.name.toList :=
    hsub.eq_of_length_le (by rw [hfield, hname]; exact not_lt.mp hlong)
  rcases hdefined with hterm | hne
  · rw [Inode.Terminated, ← hfull, hname] at hterm
    exact name.noNul hterm
  · rw [← hname, hfull, List.take_of_length_le hfield.le] at hne
    exact hne rfl

theorem inodeFindByName_short :
    Triple (fun _ => True) (inodeFindByName name) fun r _ => r.isSome → name.strlen < 32 := by
  have hmatch (i : ℕ) : Triple (fun _ => True) (matchName name i) fun r _ =>
      r.elim True fun _ => name.strlen < 32 := by
    refine Triple.trivial.bind fun r => ?_
    cases r with
    | none => exact Triple.pure fun _ _ => trivial
    | some temp =>
      dsimp only
      split_ifs
      · refine (nameEquals_short temp).bind fun b => ?_
        cases b with
        | true => exact Triple.pure fun _ h => h rfl
        | false => exact Triple.pure fun _ _ => trivial
      · exact Triple.pure fun _ _ => trivial
  refine Triple.trivial.bind fun sb => ?_
  intro s r s' _ hrun hsome
  have hfound := Triple.search (Q := fun _ _ => name.strlen < 32) (fun i _ => hmatch i)
    s r s' trivial hrun
  cases r with
  | none => exact absurd hsome Bool.false_ne_true
  | some x => exact hfound

/-- An operation that is accepted has found its file, under a name that fits the field. -/
theorem short_of_accepts {f : Option Inode → Core.M Int} {msg : Message}
    (h : Accepts (inodeFindByName name >>= f)) (hnone : f none = do emit msg; pure (-1)) :
    name.strlen < 32 := by
  obtain ⟨w, w', hrun⟩ := h
  obtain ⟨r, s, hfind, hrest⟩ := bind_inv hrun
  cases r with
  | none =>
    rw [hnone] at hrest
    exact absurd (returned_inj hrest).1 (by decide)
  | some x => exact inodeFindByName_short w (some x) s trivial hfind rfl

theorem not_accepts {m : Core.M Int} {msg : Message} (hm : m = do emit msg; pure (-1)) :
    ¬Accepts m := by
  rintro ⟨w, w', hrun⟩
  rw [hm] at hrun
  exact absurd (returned_inj hrun).1 (by decide)

/-- The messages of the operations that are accepted; `fs_unmount` and `fs_fsck` log in any case.
The numbers are left open. -/
inductive Passes : LogCall → Prop
  | format {now : UInt64} {totalSize blockSize : UInt32}
      (h : Accepts (fsFormat now totalSize blockSize)) (totalBlocks maxInodes : UInt32)
      (at_ : Tm) : Passes (.format totalSize blockSize totalBlocks maxInodes at_)
  | mount (h : Accepts fsMount) (freeBlocks freeInodes : UInt32) :
      Passes (.mount freeBlocks freeInodes)
  | unmount (totalWrites totalReads bytesWritten bytesRead : UInt64) :
      Passes (.unmount totalWrites totalReads bytesWritten bytesRead)
  | create {now : UInt64} {name : CStr} (h : Accepts (fsCreate now name)) (id : UInt32)
      (mode : UInt16) : Passes (.create name id mode)
  | delete {name : CStr} (h : Accepts (fsDelete name)) (id blocksUsed : UInt32) :
      Passes (.delete name id blocksUsed)
  | write {now : UInt64} {name data : CStr} (h : Accepts (fsWrite now name data))
      (dataLen id : UInt32) : Passes (.write name dataLen id)
  | append {now : UInt64} {name data : CStr} (h : Accepts (fsAppend now name data))
      (appLen newLen : UInt32) : Passes (.append name appLen newLen)
  | readEmpty {now : UInt64} {name : CStr} (h : Accepts (fsRead now name)) :
      Passes (.readEmpty name)
  | read {now : UInt64} {name : CStr} (h : Accepts (fsRead now name)) (size id : UInt32) :
      Passes (.read name size id)
  | rename {now : UInt64} {oldName newName : CStr} (h : Accepts (fsRename now oldName newName))
      (id : UInt32) : Passes (.rename oldName newName id)
  | copy {now : UInt64} {src dst : CStr} (h : Accepts (fsCopy now src dst)) (size id : UInt32) :
      Passes (.copy src dst size id)
  | truncate {now : UInt64} {name : CStr} {newSize : UInt32}
      (h : Accepts (fsTruncateFile now name newSize)) (freed : UInt32) :
      Passes (.truncate name newSize freed)
  | chmod {now : UInt64} {name : CStr} {bits : UInt16} (h : Accepts (fsChmod now name bits))
      (mode : UInt16) : Passes (.chmod name mode)
  | ls (h : Accepts fsLs) (count : Int32) : Passes (.ls count)
  | stat {name : CStr} (h : Accepts (fsStat name)) (id size : UInt32) : Passes (.stat name id size)
  | statfs (h : Accepts fsStatfs) (freeBlocks freeInodes : UInt32) :
      Passes (.statfs freeBlocks freeInodes)
  | fsck (errors : Int32) : Passes (.fsck errors)

/-- All names have less than 32 bytes; nothing is said of the destination of a copy. -/
def LogCall.Short : LogCall → Prop
  | .copy src .. => src.strlen < 32
  | c => ∀ name ∈ c.names, name.strlen < 32

theorem Passes.short {c : LogCall} (h : Passes c) : c.Short := by
  have hone {name : CStr} (hname : name.strlen < 32) : ∀ n ∈ [name], n.strlen < 32 := fun n hn =>
    List.mem_singleton.mp hn ▸ hname
  cases h with
  | format | mount | unmount | ls | statfs | fsck => exact fun n hn => absurd hn List.not_mem_nil
  | @create now name h =>
    exact hone (not_le.mp fun hlong => not_accepts (by rw [fsCreate, if_pos hlong]) h)
  | delete h | write h | append h | readEmpty h | read h | truncate h | chmod h | stat h =>
    exact hone (short_of_accepts h rfl)
  | @rename now oldName newName h =>
    have hnew : newName.strlen < 32 :=
      not_le.mp fun hlong => not_accepts (by rw [fsRename, if_pos hlong]) h
    rw [fsRename, if_neg (not_le.mpr hnew)] at h
    intro n hn
    rcases List.mem_cons.mp hn with rfl | hn
    · exact short_of_accepts h rfl
    · exact hone hnew n hn
  | copy h => exact short_of_accepts h rfl

/-! ## How long a message is -/

theorem length_timeText (t : Tm) : t.text.length ≤ 26 := by
  have hpadded {n : ℕ} (h : n < 100) : (padded 10 2 n).length ≤ 2 :=
    length_padded_le (by decide) (by decide) (le_refl 2) h
  have hyear : (signed (t.tmYear.toInt + 1900)).length ≤ 11 := by
    have hlow := t.tmYear.le_toInt
    have hhigh := t.tmYear.toInt_lt
    exact length_signed_le (by decide) (by omega)
  have hmon := hpadded (n := t.tmMon.val + 1) (by omega)
  have hmday := hpadded (n := t.tmMday.val) (by omega)
  have hhour := hpadded (n := t.tmHour.val) (by omega)
  have hmin := hpadded (n := t.tmMin.val) (by omega)
  have hsec := hpadded (n := t.tmSec.val) (by omega)
  have hlit : (Printf.ascii "-").length = 1 ∧ (Printf.ascii " ").length = 1 ∧
      (Printf.ascii ":").length = 1 := by decide
  simp only [Tm.text, List.length_append]
  omega

theorem length_stamp (t : Tm) : (stamp t.timeBuf).length ≤ 29 := by
  have htime : t.timeBuf.bytes.length ≤ 26 := length_timeText t
  rw [stamp, List.length_append, List.length_cons, List.length_cons, List.length_singleton]
  omega

theorem newline_not_mem_stamp (t : Tm) : 0x0A ∉ stamp t.timeBuf := by
  have htime : 0x0A ∉ t.timeBuf.bytes := LogCall.not_mem_timeText (.inr rfl) t
  simp +decide [stamp, htime]

namespace LogCall

/-- Copies apart, no message has more than 145 bytes. -/
theorem length_text {c : LogCall} (h : c.Short)
    (hcopy : ∀ src dst size id, c ≠ .copy src dst size id) :
    c.text.bytes.length ≤ 145 := by
  refine (length_format_le c.pieces).trans ?_
  cases c with
  | format _ _ _ _ at_ =>
    have htime := length_timeText at_
    simp [pieces, Piece.width, Printf.ascii]
    omega
  | mount | unmount | ls | statfs | fsck => simp [pieces, Piece.width, Printf.ascii]
  | create name | delete name | write name | append name | readEmpty name | read name
  | truncate name | stat name =>
    have hname : name.bytes.length < 32 := h name List.mem_cons_self
    simp [pieces, Piece.width, Printf.ascii]
    omega
  | chmod name mode =>
    have hname : name.bytes.length < 32 := h name List.mem_cons_self
    have hmode : (modeStr mode).length = 10 := rfl
    simp [pieces, Piece.width, Printf.ascii, hmode]
    omega
  | rename oldName newName =>
    have hold : oldName.bytes.length < 32 := h oldName List.mem_cons_self
    have hnew : newName.bytes.length < 32 :=
      h newName (List.mem_cons_of_mem _ List.mem_cons_self)
    simp [pieces, Piece.width, Printf.ascii]
    omega
  | copy src dst size id => exact absurd rfl (hcopy src dst size id)

/-- No message ends with a line end. -/
theorem not_isLine (c : LogCall) (l : List UInt8) : ¬IsLine 0x0A (l ++ c.text.bytes) := by
  obtain ⟨last, hlast, hne, hnl⟩ : ∃ last, c.pieces.getLast? = some last ∧ last.bytes ≠ [] ∧
      0x0A ∉ last.bytes := by
    have hnumber (n : ℕ) : 0x0A ∉ numeral 10 n := fun h =>
      absurd (le_of_mem_numeral (by decide) (le_refl 10) h) (by decide)
    cases c with
    | format _ _ _ _ at_ =>
      have hsec : padded 10 2 at_.tmSec.val ≠ [] := padded_ne_nil 10 2 _
      exact ⟨.str at_.text, rfl, List.append_ne_nil_of_right_ne_nil _ hsec,
        not_mem_timeText (.inr rfl) at_⟩
    | mount _ n | stat _ _ n | statfs _ n => exact ⟨.u n, rfl, numeral_ne_nil 10 _, hnumber _⟩
    | unmount _ _ _ n => exact ⟨.llu n, rfl, numeral_ne_nil 10 _, hnumber _⟩
    | create | write | append | read | rename | copy | chmod =>
      exact ⟨.lit ")", rfl, by decide, by decide⟩
    | delete | truncate => exact ⟨.lit " blocks)", rfl, by decide, by decide⟩
    | readEmpty => exact ⟨.lit "' 0 bytes (empty)", rfl, by decide, by decide⟩
    | ls => exact ⟨.lit " files", rfl, by decide, by decide⟩
    | fsck => exact ⟨.lit " errors found", rfl, by decide, by decide⟩
  obtain ⟨init, hinit⟩ := List.getLast?_eq_some_iff.mp hlast
  have htext : l ++ c.text.bytes = (l ++ Printf.format init) ++ last.bytes := by
    change l ++ Printf.format c.pieces = _
    rw [hinit, Printf.format, List.flatMap_append, List.flatMap_singleton, List.append_assoc]
    rfl
  rw [htext]
  exact not_isLine_append hne hnl

/-- The message is a line of the log. For a copy the destination decides, which may be of any
length: the entry has room for the message and a line end, or it is cut behind a line end in the
name. -/
def Fits (tm : Tm) : LogCall → Prop
  | .copy src dst size id => 0x0A ∉ src.bytes ∧
    (0x0A ∉ dst.bytes ∧
        (stamp tm.timeBuf).length + (LogCall.copy src dst size id).text.strlen < 255 ∨
      0x0A ∈ dst.bytes ∧
        (stamp tm.timeBuf).length + 13 + src.strlen + dst.bytes.idxOf 0x0A = 254)
  | c => ∀ name ∈ c.names, 0x0A ∉ name.bytes

/-- Where the first line end of a copy message stands. -/
theorem idxOf_copy (src dst : CStr) (size id : UInt32) {l : List UInt8} (hl : 0x0A ∉ l) :
    (0x0A ∈ src.bytes →
      (l ++ (LogCall.copy src dst size id).text.bytes).idxOf 0x0A < l.length + 7 + src.strlen) ∧
    (0x0A ∉ src.bytes → 0x0A ∈ dst.bytes →
      (l ++ (LogCall.copy src dst size id).text.bytes).idxOf 0x0A =
        l.length + 13 + src.strlen + dst.bytes.idxOf 0x0A) := by
  have hhead : 0x0A ∉ Printf.ascii "COPY: '" ∧ (Printf.ascii "COPY: '").length = 7 := by decide
  have harrow : 0x0A ∉ Printf.ascii "' -> '" ∧ (Printf.ascii "' -> '").length = 6 := by decide
  obtain ⟨rest, hrest⟩ : ∃ rest, (LogCall.copy src dst size id).text.bytes =
      Printf.ascii "COPY: '" ++ (src.bytes ++ (Printf.ascii "' -> '" ++ (dst.bytes ++ rest))) :=
    ⟨_, rfl⟩
  rw [hrest, List.idxOf_append_of_notMem hl, List.idxOf_append_of_notMem hhead.1, hhead.2]
  constructor
  · intro hsrc
    have hlt : src.bytes.idxOf 0x0A < src.strlen := List.idxOf_lt_length_of_mem hsrc
    rw [List.idxOf_append_of_mem hsrc]
    omega
  · intro hsrc hdst
    rw [List.idxOf_append_of_notMem hsrc, List.idxOf_append_of_notMem harrow.1, harrow.2,
      List.idxOf_append_of_mem hdst, CStr.strlen]
    omega

theorem newline_not_mem_entry (c : LogCall) (tm : Tm) :
    0x0A ∉ stamp tm.timeBuf ++ c.text.bytes ↔ ∀ name ∈ c.names, 0x0A ∉ name.bytes := by
  rw [List.mem_append, or_iff_right (newline_not_mem_stamp tm), newline_mem_iff]
  push Not
  rfl

theorem fits_copy_iff {src : CStr} (hsrc : src.strlen < 32) (dst : CStr) (size id : UInt32)
    (tm : Tm) {full : List UInt8}
    (hfull : full = stamp tm.timeBuf ++ (LogCall.copy src dst size id).text.bytes) :
    0x0A ∉ full ∧ full.length < 255 ∨ full.idxOf 0x0A + 1 = min 255 full.length ↔
      (LogCall.copy src dst size id).Fits tm := by
  have hstamp := length_stamp tm
  obtain ⟨hearly, hlate⟩ := idxOf_copy src dst size id (newline_not_mem_stamp tm)
  rw [← hfull] at hearly hlate
  have hlength : full.length =
      (stamp tm.timeBuf).length + (LogCall.copy src dst size id).text.strlen := by
    rw [hfull, List.length_append]
    rfl
  have hend : full.idxOf 0x0A + 1 ≠ full.length := fun heq =>
    (LogCall.copy src dst size id).not_isLine _ (isLine_iff_idxOf.mpr (hfull ▸ heq))
  have hpair : 0x0A ∉ full ↔ 0x0A ∉ src.bytes ∧ 0x0A ∉ dst.bytes := by
    rw [hfull, newline_not_mem_entry, names, List.forall_mem_cons, List.forall_mem_singleton]
  constructor
  · rintro (⟨hnot, hlen⟩ | hcut)
    · obtain ⟨hnsrc, hndst⟩ := hpair.mp hnot
      exact ⟨hnsrc, .inl ⟨hndst, by omega⟩⟩
    · -- the first line end is the last byte left by the cut
      have hin : 0x0A ∈ full := by
        by_contra hnot
        have hall := List.idxOf_eq_length_iff.mpr hnot
        omega
      have hnsrc : 0x0A ∉ src.bytes := fun hin => by
        have hlt := hearly hin
        omega
      have hdst : 0x0A ∈ dst.bytes := by
        by_contra hndst
        exact hpair.mpr ⟨hnsrc, hndst⟩ hin
      have hpos := hlate hnsrc hdst
      exact ⟨hnsrc, .inr ⟨hdst, by omega⟩⟩
  · rintro ⟨hnsrc, ⟨hndst, hlen⟩ | ⟨hdst, hpos⟩⟩
    · exact .inl ⟨hpair.mpr ⟨hnsrc, hndst⟩, by omega⟩
    · have hin : 0x0A ∈ full := by
        by_contra hnot
        exact (hpair.mp hnot).2 hdst
      have hlt := List.idxOf_lt_length_of_mem hin
      have hfirst := hlate hnsrc hdst
      exact .inr (by omega)

theorem fits_iff {c : LogCall} (h : c.Short) (tm : Tm) :
    0x0A ∉ stamp tm.timeBuf ++ c.text.bytes ∧ (stamp tm.timeBuf ++ c.text.bytes).length < 255 ∨
      (stamp tm.timeBuf ++ c.text.bytes).idxOf 0x0A + 1 =
        min 255 (stamp tm.timeBuf ++ c.text.bytes).length ↔ c.Fits tm := by
  by_cases hcopy : ∃ src dst size id, c = .copy src dst size id
  · obtain ⟨src, dst, size, id, rfl⟩ := hcopy
    exact fits_copy_iff h dst size id tm rfl
  · push Not at hcopy
    have hstamp := length_stamp tm
    have htext := length_text h hcopy
    have hend : (stamp tm.timeBuf ++ c.text.bytes).idxOf 0x0A + 1 ≠
        (stamp tm.timeBuf ++ c.text.bytes).length := fun heq =>
      c.not_isLine _ (isLine_iff_idxOf.mpr heq)
    have hfits : c.Fits tm ↔ ∀ name ∈ c.names, 0x0A ∉ name.bytes := by
      cases c with
      | copy src dst size id => exact absurd rfl (hcopy src dst size id)
      | _ => exact Iff.rfl
    have hlen : (stamp tm.timeBuf ++ c.text.bytes).length < 255 := by
      rw [List.length_append]
      omega
    rw [hfits, newline_not_mem_entry, min_eq_right hlen.le]
    exact ⟨fun hor => (hor.resolve_right hend).1, fun hn => .inl ⟨hn, hlen⟩⟩

end LogCall

/-! ## The log file -/

def FittingLog (a : Action) : Prop :=
  ∀ time text, a = .log time text →
    ∃ c tm, Passes c ∧ c.Fits tm ∧ time = Tm.timeBuf tm ∧ text = c.text

theorem logLine_iff_fits {c : LogCall} (h : Passes c) (tm : Tm) :
    LogLine tm.timeBuf (slotOf (msgBuf tm.timeBuf c.text)) ↔ c.Fits tm := by
  have hstamp := length_stamp tm
  rw [logLine_iff (by omega), c.fits_iff h.short]

variable {s s' : State} {acts : List Action} {results : List (List (List UInt8))}

/-- What was accepted in any interleaving are lines. -/
theorem accepted_lines (hacts : ∀ a ∈ acts, FittingLog a)
    (hrun : runList perform acts (loggerInit s) = some (results, s')) :
    ∀ m ∈ results.flatten, IsLine 0x0A m := by
  have hstep : ∀ s a msgs s' accepted, FittingLog a → (∀ m ∈ accepted, IsLine 0x0A m) →
      Step s a msgs s' → ∀ m ∈ accepted ++ msgs, IsLine (0x0A : UInt8) m := by
    intro s a msgs s' accepted hfit hold hs m hm
    rcases List.mem_append.mp hm with hm | hm
    · exact hold m hm
    · cases hs with
      | @accept time text hroom =>
        obtain ⟨c, tm, hc, hfits, rfl, rfl⟩ := hfit time text rfl
        have hline := ((logLine_iff_fits hc tm).mpr hfits).line
        rw [shown_slotOf (msgBuf_noNul _ _) (length_msgBuf _ _)] at hline
        exact List.mem_singleton.mp hm ▸ hline
      | _ => exact absurd hm List.not_mem_nil
  have hnone : ∀ m ∈ ([] : List (List UInt8)), IsLine 0x0A m := fun m hm =>
    absurd hm List.not_mem_nil
  exact runList_induction (p := fun _ accepted => ∀ m ∈ accepted, IsLine (0x0A : UInt8) m)
    hstep hacts hnone hrun

/-- The entry of a message is one line of the log exactly if the message fits. So while all do, in
every interleaving of callers, logger thread and shutdown, the log file has a line for each entry
printed. -/
theorem log_line_iff {c : LogCall} (h : Passes c) (tm : Tm) :
    (LogLine tm.timeBuf (slotOf (msgBuf tm.timeBuf c.text)) ↔ c.Fits tm) ∧
      ∀ (s s' : State) (acts : List Action) (results : List (List (List UInt8))),
        (∀ a ∈ acts, FittingLog a) →
        runList perform acts (loggerInit s) = some (results, s') →
        s'.logFile <+: results.flatten ∧ (∀ m ∈ s'.logFile, IsLine 0x0A m) ∧
          s'.logFile.flatten.count 0x0A = s'.logFile.length := by
  refine ⟨logLine_iff_fits h tm, fun s s' acts results hacts hrun => ?_⟩
  obtain ⟨r, -, haccepted⟩ := ((loggerInit_delivers s).run hrun).fifo
  have hprinted : s'.logFile <+: results.flatten := ⟨_, haccepted⟩
  have hlines : ∀ m ∈ s'.logFile, IsLine 0x0A m := fun m hm =>
    accepted_lines hacts hrun m (hprinted.subset hm)
  exact ⟨hprinted, hlines, count_flatten hlines⟩

def longName : CStr := ⟨List.replicate 250 0x78, by decide⟩

theorem shortName_noNul : (0 : UInt8) ∉ [0x61] := by decide

def shortName : CStr := ⟨[0x61], shortName_noNul⟩

set_option maxRecDepth 100000 in
theorem copy_longName : Accepts (fsCopy 0 shortName longName) := by
  obtain ⟨-, w, -, -, h⟩ := exists_mounted 1152 288 (fun w =>
    (fsCreate 0 shortName w).any fun a => a.1 = 0 ∧
      (fsCopy 0 shortName longName a.2).any fun b => b.1 = 0) (by decide +kernel)
  obtain ⟨r1, w1, -, h1⟩ := exists_of_any h
  obtain ⟨-, hcopy⟩ := of_decide_eq_true h1
  obtain ⟨r2, w2, hrun, h2⟩ := exists_of_any hcopy
  obtain rfl : r2 = 0 := of_decide_eq_true h2
  exact ⟨w1, w2, hrun⟩

/-- The entry of that copy has no line end, whatever the time. -/
theorem longName_unended : ∃ c, Passes c ∧
    ∀ tm : Tm, ¬LogLine tm.timeBuf (slotOf (msgBuf tm.timeBuf c.text)) := by
  refine ⟨_, .copy copy_longName 0 1, fun tm hline => ?_⟩
  have hlong : 255 ≤ (LogCall.copy shortName longName 0 1).text.strlen := by decide +kernel
  have hnone : 0x0A ∉ longName.bytes := by decide
  obtain ⟨-, ⟨-, hlen⟩ | ⟨hin, -⟩⟩ := (logLine_iff_fits (.copy copy_longName 0 1) tm).mp hline
  · omega
  · exact hnone hin

/-- The first second of 2024. -/
theorem log_line_iff_longName : let tm : Tm := ⟨0, 0, 0, 1, 0, 124⟩
    let c : LogCall := .copy shortName longName 0 1
    Passes c ∧ (LogLine tm.timeBuf (slotOf (msgBuf tm.timeBuf c.text)) ↔ c.Fits tm) ∧
      ∀ (s s' : State) (acts : List Action) (results : List (List (List UInt8))),
        (∀ a ∈ acts, FittingLog a) →
        runList perform acts (loggerInit s) = some (results, s') →
        s'.logFile <+: results.flatten ∧ (∀ m ∈ s'.logFile, IsLine 0x0A m) ∧
          s'.logFile.flatten.count 0x0A = s'.logFile.length :=
  ⟨.copy copy_longName 0 1, log_line_iff (.copy copy_longName 0 1) _⟩

end MiniFs.Logger

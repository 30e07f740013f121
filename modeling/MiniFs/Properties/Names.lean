import MiniFs.Image.Names

/-! # Unique and findable names

`fs_copy` does not check the length of the new name, so it can store a name cut
to 31 bytes. Names stay unique and findable as long as no such copy goes through.
-/

set_option autoImplicit false

namespace MiniFs.Properties
open MiniFs.Core Image Library Library.Exec Library.Chunks

def UniqueNames (w : World) : Prop :=
  ∀ (i j : ℕ) (x y : Inode), w.LiveAt i x → w.LiveAt j y → x.shownName = y.shownName → i = j

/-- Slot `i` is where the operation puts its name: a free slot, or that of the old name. -/
def NamesSlot (w : World) (i : ℕ) : FileOp → Prop
  | .rename oldName _ => ∃ x, w.find oldName = some x ∧ w.slot i = some x
  | _ => ∃ x, w.slot i = some x ∧ x.isUsed = 0

/-- What a call may do to names: they stay unique, and a name just given leads to the inode it was
given to. -/
def NamesKept (w : World) (c : FileCall) (r : Int) (w' : World) : Prop :=
  UniqueNames w' ∧ (r = 0 → ∀ name, givenName c.op = some name →
    ∃ i y, NamesSlot w i c.op ∧ w'.LiveAt i y ∧ w'.find name = some y)

/-- A copy to a name of 32 bytes or more that finds its source, a free inode and enough blocks. -/
def LongCopy (find : CStr → Option Inode) (sb : Superblock) : FileOp → Prop
  | .copy src dst => maxFilenameLen ≤ dst.strlen ∧
    ∃ x, find src = some x ∧ sb.freeInodes ≠ 0 ∧ blocksUsed sb x.size ≤ sb.freeBlocks
  | _ => False

/-- The length to be stored stays a block clear of the end of 32 bits. -/
def Storable (find : CStr → Option Inode) (sb : Superblock) : FileOp → Prop
  | .write _ data => data.strlen + sb.blockSize.toNat ≤ 2 ^ 32
  | .append name data =>
    ∀ x, find name = some x → x.size.toNat + data.strlen + sb.blockSize.toNat ≤ 2 ^ 32
  | _ => True

variable {g : Geometry} {vol vol' : Volume} {w w' : World} {v v' : View}

theorem Storable.fits (hs : Sound g vol) {op : FileOp}
    (h : Storable (fun name => vol.lookup name.bytes) vol.sb op) : Fits g vol op := by
  intro n hn
  rw [← hs.layout.blockSize]
  cases op with
  | write name data =>
    obtain rfl := Option.some.inj hn
    exact h
  | append name data =>
    obtain ⟨x, hx, rfl⟩ := Option.map_eq_some_iff.mp hn
    exact h x hx
  | _ => exact nomatch hn

/-- A copy that needs as many blocks as are free has room, as `_do_write` counts. -/
theorem room_iff (hs : Sound g vol) {i : ℕ} {y : Inode} (hy : vol.inodes[i]? = some y)
    (hlive : y.isUsed = 1) (hsize : y.size ≠ 0) :
    blocksUsed vol.sb y.size ≤ vol.sb.freeBlocks ↔
      blocksNeeded g y.size.toNat ≤ vol.sb.freeBlocks.toNat := by
  have hpos : pieces y.size.toNat g.blockSize ≠ 0 := by
    rw [Ne, pieces_eq_zero_iff g.blockSize_pos]
    exact fun h0 => hsize (UInt32.toNat_inj.mp h0)
  have hfit := hs.size_fits hy hlive
  rw [UInt32.le_iff_toNat_le, toNat_blocksUsed hs.layout (by omega), blocksNeeded,
    Nat.max_eq_right (Nat.one_le_iff_ne_zero.mpr hpos)]

/-- Only a long copy stores a name that does not fit. -/
theorem Accepted.fits_or_longCopy (hs : Sound g vol) {now : UInt64} {op : FileOp}
    {msgs : List Message} (h : Accepted g now op vol vol' msgs) :
    (∀ name, givenName op = some name → name.strlen < maxFilenameLen) ∨
      LongCopy (fun name => vol.lookup name.bytes) vol.sb op := by
  cases h with
  | create hlen => exact .inl fun n hn => Option.some.inj hn ▸ hlen
  | rename hlen => exact .inl fun n hn => Option.some.inj hn ▸ hlen
  | @copyEmpty _ src dst _ _ _ y hat hnew hslot hsize =>
    by_cases hlen : dst.strlen < maxFilenameLen
    · exact .inl fun n hn => Option.some.inj hn ▸ hlen
    · refine .inr ⟨not_lt.mp hlen, y, hat.lookup, hslot.freeInodes_ne hs, ?_⟩
      rw [hsize]
      exact UInt32.le_iff_toNat_le.mpr (Nat.zero_le _)
  | @copy _ _ src dst _ _ _ y _ _ hat hnew hslot hsize hst =>
    by_cases hlen : dst.strlen < maxFilenameLen
    · exact .inl fun n hn => Option.some.inj hn ▸ hlen
    · refine .inr ⟨not_lt.mp hlen, y, hat.lookup, hslot.freeInodes_ne hs, ?_⟩
      rw [room_iff hs hat.slot hat.live hsize]
      have hlength := hst.length
      rw [(hs.readable hat.slot hat.live).length_content] at hlength
      exact hlength ▸ hst.room
  | _ => exact .inl fun n hn => nomatch hn

theorem Rejected.not_longCopy (hs : Sound g vol) {op : FileOp} {msg : Message}
    (h : Rejected g op vol vol' msg) :
    ¬ LongCopy (fun name => vol.lookup name.bytes) vol.sb op := by
  cases h with
  | notFound hsub hnone =>
    cases op with
    | copy src dst =>
      obtain ⟨rfl, -⟩ := returned_inj hsub
      rintro ⟨-, x, hx, -⟩
      exact nomatch hx.symm.trans hnone
    | _ => exact id
  | copyExists hat hex =>
    rintro ⟨hlen, -⟩
    rw [hs.lookup_long hlen] at hex
    exact nomatch hex
  | copyNoInode hat hnew hno => exact fun ⟨_, _, _, hfree, _⟩ => hfree hno
  | copyFull hat hnew hslot hsize hfull =>
    rintro ⟨-, x, hx, -, hroom⟩
    obtain rfl := Option.some.inj (hat.lookup.symm.trans hx)
    exact absurd ((room_iff hs hat.slot hat.live hsize).mp hroom) (not_le.mpr hfull)
  | _ => exact id

theorem uniqueNames_iff (h : Represents g w v) (hv : Steady g v) :
    UniqueNames w ↔ NamesUnique v.vol := by
  simp only [UniqueNames, NamesUnique, h.liveAt_iff hv.faults, and_imp]

theorem longCopy_iff (h : Represents g w v) (hv : Steady g v) (op : FileOp) :
    LongCopy w.find w.sb op ↔ LongCopy (fun name => v.vol.lookup name.bytes) v.vol.sb op := by
  rw [find_eq h hv, h.sb]

theorem namesSlot_of_namedSlot (h : Represents g w v) (hv : Steady g v) {i : ℕ} {op : FileOp}
    (hslot : NamedSlot v.vol i op) : NamesSlot w i op := by
  cases op with
  | rename oldName newName =>
    obtain ⟨x, hx, hi⟩ := hslot
    exact ⟨x, (h.find_eq hv.sound hv.faults oldName).trans hx, (h.slot_eq hv.faults i).trans hi⟩
  | _ =>
    obtain ⟨x, hi, hx⟩ := hslot
    exact ⟨x, (h.slot_eq hv.faults i).trans hi, hx⟩

section Step
variable {c : FileCall} {r : Int}

/-- A call that is no long copy keeps names. -/
theorem namesKept_of_not_longCopy (h : Represents g w v) (hv : Steady g v)
    (hu : NamesUnique v.vol) (hfit : Fits g v.vol c.op) (hstep : callStep g c v r v')
    (h' : Represents g w' v') (hv' : Steady g v') (hnot : ¬ LongCopy w.find w.sb c.op) :
    NamesUnique v'.vol ∧ NamesKept w c r w' := by
  rw [NamesKept, uniqueNames_iff h' hv']
  cases hstep with
  | rejected hrej hadv =>
    have hnames := Rejected.names hv.sound hu hrej
    rw [← hadv.vol] at hnames
    exact ⟨hnames, hnames, fun h0 => absurd h0 (by decide)⟩
  | accepted hacc hadv =>
    rw [longCopy_iff h hv] at hnot
    have hlen := (Accepted.fits_or_longCopy hv.sound hacc).resolve_right hnot
    obtain ⟨hnames, hfound⟩ := Accepted.names hv.sound hu hfit hlen hacc
    rw [← hadv.vol] at hnames hfound
    refine ⟨hnames, hnames, fun _ name hname => ?_⟩
    obtain ⟨i, y, hslot, hi, hlive, hy⟩ := hfound name hname
    exact ⟨i, y, namesSlot_of_namedSlot h hv hslot, (h'.liveAt_iff hv'.faults).mpr ⟨hi, hlive⟩,
      (h'.find_eq hv'.sound hv'.faults name).trans hy⟩

/-- A long copy returns 0, and the name it was to give is not found. -/
theorem not_namesKept_of_longCopy (h : Represents g w v) (hv : Steady g v)
    (hstep : callStep g c v r v') (h' : Represents g w' v') (hv' : Steady g v')
    (hlong : LongCopy w.find w.sb c.op) : ¬ NamesKept w c r w' := by
  have hvol := (longCopy_iff h hv c.op).mp hlong
  obtain ⟨op, now⟩ := c
  cases hstep with
  | rejected hrej => exact absurd hvol (Rejected.not_longCopy hv.sound hrej)
  | accepted hacc hadv =>
    cases op with
    | copy src dst =>
      rintro ⟨-, hfound⟩
      obtain ⟨i, y, -, -, hy⟩ := hfound rfl dst rfl
      rw [h'.find_eq hv'.sound hv'.faults, hv'.sound.lookup_long hlong.1] at hy
      exact nomatch hy
    | _ => exact absurd hlong id

end Step

theorem runCalls_namesKept_iff (h : Represents g w v) (hv : Steady g v) (hu : NamesUnique v.vol)
    (calls : List FileCall)
    (hstore : Always runCall (fun w c => Storable w.find w.sb c.op) w calls) :
    Throughout runCall NamesKept w calls ↔
      Always runCall (fun w c => ¬ LongCopy w.find w.sb c.op) w calls := by
  induction calls generalizing w v with
  | nil => exact iff_of_true trivial trivial
  | cons c calls ih =>
    have hc : Storable w.find w.sb c.op := hstore.1
    rw [find_eq h hv, h.sb] at hc
    have hfit := Storable.fits hv.sound hc
    obtain ⟨r, w1, v1, hw1, h1, hstep, hv1⟩ := h.runCall hv hfit
    rw [throughout_cons hw1, always_cons hw1]
    rw [always_cons hw1] at hstore
    by_cases hlong : LongCopy w.find w.sb c.op
    · have hbad := not_namesKept_of_longCopy h hv hstep h1 hv1 hlong
      exact iff_of_false (fun hk => hbad hk.1) (fun hk => hk.1 hlong)
    · obtain ⟨hu1, hkept⟩ := namesKept_of_not_longCopy h hv hu hfit hstep h1 hv1 hlong
      rw [ih h1 hv1 hu1 hstore.2]
      exact ⟨fun hk => ⟨hlong, hk.2⟩, fun hk => ⟨hkept, hk.2⟩⟩

theorem namesUnique_empty {totalSize blockSize : UInt32} (h : Formattable totalSize blockSize)
    (now : UInt64) (out : List Message) : NamesUnique (initialView h now out).vol := by
  intro i j x y hi hx
  obtain rfl : Inode.zero = x := by
    change (List.replicate _ Inode.zero)[i]? = some x at hi
    rw [List.getElem?_replicate] at hi
    split_ifs at hi
    exact Option.some.inj hi
  exact absurd hx (by decide)

/-- After a format and a mount, in a run whose contents stay clear of the end of 32 bits, names stay
unique and each name given is found, if and only if no long copy occurs. -/
theorem mounted_namesKept_iff {totalSize blockSize : UInt32} {now : UInt64} {w0 w1 : World}
    (hf : w0.faults = noFaults) (hfmt : fsFormat now totalSize blockSize w0 = some (0, w1)) :
    ∃ w2, fsMount w1 = some (0, w2) ∧ UniqueNames w2 ∧ ∀ calls : List FileCall,
      Always runCall (fun w c => Storable w.find w.sb c.op) w2 calls →
      (Throughout runCall NamesKept w2 calls ↔
        Always runCall (fun w c => ¬ LongCopy w.find w.sb c.op) w2 calls) := by
  obtain ⟨h, w2, hmount, hrep, hv⟩ := mount_initial hf hfmt
  have hu := namesUnique_empty h now w1.out
  exact ⟨w2, hmount, (uniqueNames_iff hrep hv).mpr hu,
    fun calls => runCalls_namesKept_iff hrep hv hu calls⟩

/-- A file made and renamed. -/
theorem mounted_namesKept_iff_four : ∃ w1 w2, fsFormat 0 576 144 (.start none 0 0) = some (0, w1) ∧
    fsMount w1 = some (0, w2) ∧ UniqueNames w2 ∧
    Throughout runCall NamesKept w2 [⟨.create ⟨[97], by decide⟩, 1⟩,
      ⟨.rename ⟨[97], by decide⟩ ⟨[98], by decide⟩, 2⟩] := by
  obtain ⟨w1, hfmt⟩ := fsFormat_four
  obtain ⟨w2, hmount, hunique, hall⟩ := mounted_namesKept_iff rfl hfmt
  refine ⟨w1, w2, hfmt, hmount, hunique, (hall _ ?_).mpr ?_⟩
  · exact ⟨trivial, fun _ _ _ => ⟨trivial, fun _ _ _ => trivial⟩⟩
  · exact ⟨not_false, fun _ _ _ => ⟨not_false, fun _ _ _ => trivial⟩⟩

set_option maxRecDepth 100000 in
/-- A file with a name of 31 letters, copied to a name of 32: both calls return 0, two live inodes
carry the same name, and the name given is not found. -/
theorem longCopy_collides : ∃ w1 w2 w, fsFormat 0 1152 288 (.start none 0 0) = some (0, w1) ∧
    fsMount w1 = some (0, w2) ∧
    runList runCall [⟨.create ⟨List.replicate 31 98, by decide⟩, 1⟩,
      ⟨.copy ⟨List.replicate 31 98, by decide⟩ ⟨List.replicate 32 98, by decide⟩, 2⟩] w2 =
        some ([0, 0], w) ∧
    ¬ UniqueNames w ∧ w.find ⟨List.replicate 32 98, by decide⟩ = none := by
  have hmounted := exists_mounted 1152 288
    (fun w2 => (runList runCall [⟨.create ⟨List.replicate 31 98, by decide⟩, 1⟩,
      ⟨.copy ⟨List.replicate 31 98, by decide⟩ ⟨List.replicate 32 98, by decide⟩, 2⟩] w2).any
        fun k => k.1 = [0, 0] ∧ k.2.find ⟨List.replicate 32 98, by decide⟩ = none ∧
          ∃ x ∈ k.2.slot 0, ∃ y ∈ k.2.slot 1, x.isUsed = 1 ∧ y.isUsed = 1 ∧
            x.shownName = y.shownName)
  obtain ⟨w1, w2, hfmt, hmount, h2⟩ := hmounted (by decide +kernel)
  obtain ⟨rs, w, hcalls, h3⟩ := exists_of_any h2
  obtain ⟨rfl, hfind, x, hx, y, hy, hxlive, hylive, hname⟩ := of_decide_eq_true h3
  refine ⟨w1, w2, w, hfmt, hmount, hcalls, fun hu => ?_, hfind⟩
  exact absurd (hu 0 1 x y ⟨hx, hxlive⟩ ⟨hy, hylive⟩ hname) (by decide)

end MiniFs.Properties

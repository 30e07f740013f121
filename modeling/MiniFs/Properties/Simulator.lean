import MiniFs.Properties.Formatting
import MiniFs.Properties.Names
import MiniFs.Simulator.Agreement

/-! # The page as a simulator of the core

Core and page run side by side on the same calls. They agree as long as every
call meets a state in which block lists are as long as the sizes say, and no
destination of a copy is cut.
-/

set_option autoImplicit false

namespace MiniFs.Properties
open MiniFs.Core MiniFs.Image Simulator Library Library.Exec Library.Chunks

/-- The files of the core: names with content, size and mode. -/
def coreFiles (w : World) : Set (JsString × Entry) :=
  {p | ∃ i x, w.LiveAt i x ∧
    p = (text x.shownName, ⟨text (w.content x), x.size.toNat, x.mode.toNat⟩)}

def pageFiles (fs : FS) : Set (JsString × Entry) :=
  {p | ∃ f ∈ fs.files, p = (f.name, ⟨f.content, f.size, f.mode⟩)}

structure Agree (w : World) (fs : FS) : Prop where
  files : coreFiles w = pageFiles fs
  freeBlocks : fs.superblock.freeBlocks = w.sb.freeBlocks.toNat
  freeInodes : fs.superblock.freeInodes = w.sb.freeInodes.toNat

/-- A call of the core, and of the page with the same arguments. -/
def runBoth (c : FileCall × JsString) : Prog (World × FS) (Int × Bool) := fun s =>
  (runCall c.1 s.1).map fun p =>
    ((p.1, (perform c.2 (pageOp c.1.op) s.2).1.ok), (p.2, (perform c.2 (pageOp c.1.op) s.2).2))

/-- Both accept or both reject, and they agree afterwards. -/
def SameStep (_ : World × FS) (_ : FileCall × JsString) (r : Int × Bool) (s' : World × FS) : Prop :=
  (r.1 = 0 ↔ r.2 = true) ∧ Agree s'.1 s'.2

section Views
variable {g : Geometry} {w : World} {v : View} {fs : FS}

theorem mem_coreFiles_iff (h : Represents g w v) (hv : Steady g v) (hu : NamesUnique v.vol)
    {n : JsString} {e : Entry} :
    (n, e) ∈ coreFiles w ↔ spread (coreDirectory g v.vol) n = some e := by
  rw [spread_eq_some_iff]
  simp only [coreDirectory, (namesUnique_iff.mp hu).table_eq_some_iff, nameKey_eq_some_iff]
  constructor
  · rintro ⟨i, x, hx, hp⟩
    obtain ⟨hi, hlive⟩ := (h.liveAt_iff hv.faults).mp hx
    obtain ⟨rfl, rfl⟩ := Prod.mk.inj hp
    refine ⟨x.shownName, rfl, x, List.mem_of_getElem? hi, ⟨hlive, rfl⟩, ?_⟩
    rw [coreEntry, h.content_eq hv.sound hi hlive]
  · rintro ⟨name, rfl, x, hx, ⟨hlive, rfl⟩, rfl⟩
    obtain ⟨i, hi⟩ := List.getElem?_of_mem hx
    refine ⟨i, x, (h.liveAt_iff hv.faults).mpr ⟨hi, hlive⟩, ?_⟩
    rw [coreEntry, h.content_eq hv.sound hi hlive]

theorem mem_pageFiles_iff (hu : (fs.files.map File.name).Nodup) {n : JsString} {e : Entry} :
    (n, e) ∈ pageFiles fs ↔ pageDirectory fs n = some e := by
  rw [pageDirectory, (keyed_unique hu).table_eq_some_iff]
  simp only [pageFiles, Set.mem_ofPred_eq, Prod.mk.injEq, fileKey, Option.some_inj, File.entry,
    eq_comm]

theorem agree_of_matches (h : Represents g w v) (hv : Steady g v) (hm : Matches g v.vol fs) :
    Agree w fs := by
  refine ⟨?_, ?_, ?_⟩
  · ext ⟨n, e⟩
    rw [mem_coreFiles_iff h hv hm.names, mem_pageFiles_iff hm.running.accounted.names,
      hm.directory]
  · rw [hm.freeBlocks, h.sb]
  · rw [hm.freeInodes, h.sb]

theorem name_short (h : Represents g w v) (hv : Steady g v) (hagree : Agree w fs) (f : File)
    (hf : f ∈ fs.files) : f.name.length < 32 := by
  have hmem : (f.name, (⟨f.content, f.size, f.mode⟩ : Entry)) ∈ pageFiles fs := ⟨f, hf, rfl⟩
  rw [← hagree.files] at hmem
  obtain ⟨i, x, hx, hp⟩ := hmem
  obtain ⟨hi, hlive⟩ := (h.liveAt_iff hv.faults).mp hx
  rw [(Prod.mk.inj hp).1, length_text]
  exact shownName_length_lt (hv.sound.live i x hi hlive).name_end

end Views

section Runs
variable {g : Geometry} {w : World} {v : View} {fs : FS}

/-- A run stays the same on both sides if and only if every call of it is treated alike. -/
theorem runBoth_same_iff (h : Represents g w v) (hv : Steady g v) (hm : Matches g v.vol fs)
    (calls : List (FileCall × JsString))
    (hstore : Always runBoth (fun s c => Storable s.1.find s.1.sb c.1.op) (w, fs) calls) :
    Throughout runBoth SameStep (w, fs) calls ↔
      Always runBoth (fun s c => Alike s.2 c.1.op) (w, fs) calls := by
  induction calls generalizing w v fs with
  | nil => exact iff_of_true trivial trivial
  | cons c calls ih =>
    have hc : Storable w.find w.sb c.1.op := hstore.1
    rw [find_eq h hv, h.sb] at hc
    have hfit := Storable.fits hv.sound hc
    obtain ⟨r, w1, v1, hw1, h1, hstep, hv1⟩ := h.runCall hv hfit
    have hpage := perform_step hm.running.formatted c.2 (pageOp c.1.op)
    have hboth : runBoth c (w, fs) = some ((r, (perform c.2 (pageOp c.1.op) fs).1.ok),
        (w1, (perform c.2 (pageOp c.1.op) fs).2)) := by
      simp only [runBoth, hw1, Option.map_some]
    rw [throughout_cons hboth, always_cons hboth]
    rw [always_cons hboth] at hstore
    by_cases halike : Alike fs c.1.op
    · obtain ⟨hanswer, hm1⟩ := hm.step hv.sound hfit hstep hpage halike
      rw [ih h1 hv1 hm1 hstore.2]
      exact ⟨fun hk => ⟨halike, hk.2⟩, fun hk =>
        ⟨⟨hanswer, agree_of_matches h1 hv1 hm1⟩, hk.2⟩⟩
    · refine iff_of_false (fun hk => halike ?_) fun hk => halike hk.1
      obtain ⟨hanswer, hagree⟩ := hk.1
      refine hm.alike_of_agree hv.sound hfit hstep hpage hanswer ?_ (name_short h1 hv1 hagree)
      rw [hagree.freeBlocks, h1.sb]

end Runs

section Initial
variable {totalSize blockSize : UInt32}

/-- The page starts with the sizes of the core. -/
theorem page_sizes (h : Image.Formattable totalSize blockSize) :
    Simulator.bitmapBlocks totalSize.toNat blockSize.toNat =
        (formatBitmapBlocks totalSize blockSize).toNat ∧
      Simulator.inodeBlocks totalSize.toNat blockSize.toNat =
        (formatInodeBlocks totalSize blockSize).toNat := by
  have hbs : 0 < blockSize.toNat := (Geometry.ofFormat h).blockSize_pos
  have hroom := (Geometry.ofFormat h).room
  have htotal : (totalSize.toNat : ℤ) / blockSize.toNat =
      ((totalSize.toNat / blockSize.toNat : ℕ) : ℤ) := (Int.natCast_div _ _).symm
  constructor
  · have hpos : 0 < pieces (totalSize.toNat / blockSize.toNat) (8 * blockSize.toNat) := by
      rw [lt_pieces_iff (by omega)]
      change 1 + _ + _ < totalSize.toNat / blockSize.toNat at hroom
      omega
    have hceil := ceilDiv_natCast (m := 8 * blockSize.toNat) (by omega)
      (totalSize.toNat / blockSize.toNat)
    rw [Simulator.bitmapBlocks, htotal, mul_comm (blockSize.toNat : ℤ),
      toNat_bitmapBlocks_exact h.inode_le h.bits_ne]
    rw [Nat.cast_mul, Nat.cast_ofNat] at hceil
    rw [hceil]
    omega
  · rw [Simulator.inodeBlocks, htotal, toNat_formatInodeBlocks]
    omega

theorem matches_initial (h : Image.Formattable totalSize blockSize) (now : UInt64)
    (out : List Message) (ts : JsString)
    (hpage : Simulator.Formattable totalSize.toNat blockSize.toNat) :
    Matches (Geometry.ofFormat h) (initialView h now out).vol
      (emptyFS ts totalSize.toNat blockSize.toNat) := by
  obtain ⟨hbitmap, hinodes⟩ := page_sizes h
  have hunique := namesUnique_empty h now out
  have hlay := describes_formatSb h now
  constructor
  · exact hunique
  · exact emptyFS_running hpage ts
  · funext n
    refine (Option.eq_none_iff_forall_ne_some.mpr fun e he => ?_).symm
    obtain ⟨name, -, hname⟩ := spread_eq_some_iff.mp he
    obtain ⟨x, hx, hkey, -⟩ := (namesUnique_iff.mp hunique).table_eq_some_iff.mp hname
    rw [List.eq_of_mem_replicate hx] at hkey
    exact nomatch hkey
  · rfl
  · change (totalSize.toNat : ℤ) / blockSize.toNat - (1 + Simulator.bitmapBlocks _ _ +
      Simulator.inodeBlocks _ _) = ((formatSb now totalSize blockSize).dataBlocks.toNat : ℤ)
    rw [hlay.dataBlocks, hbitmap, hinodes]
    have hadd := (Geometry.ofFormat h).dataBlocks_add
    have htotal : (totalSize.toNat : ℤ) / blockSize.toNat =
      ((totalSize.toNat / blockSize.toNat : ℕ) : ℤ) := (Int.natCast_div _ _).symm
    rw [htotal]
    change _ + (1 + (formatBitmapBlocks totalSize blockSize).toNat +
      (formatInodeBlocks totalSize blockSize).toNat) = totalSize.toNat / blockSize.toNat at hadd
    omega
  · change (blockSize.toNat : ℤ) / 144 * Simulator.inodeBlocks _ _ =
      ((blockSize / inodeSize * formatInodeBlocks totalSize blockSize).toNat : ℤ)
    rw [hinodes, toNat_maxInodes_exact h.inode_le]
    norm_cast

end Initial

/-- After accepted formats of the same sizes and a mount, core and page agree, and any run of calls
whose contents stay clear of the end of 32 bits is answered alike and keeps them in agreement, if
and only if every call of it is treated alike. -/
theorem page_simulates_iff {totalSize blockSize : UInt32} {now : UInt64} {w0 w1 : World}
    {ts : JsString} {fs fs1 : FS} {msg : Msg} (hf : w0.faults = noFaults)
    (hcore : fsFormat now totalSize blockSize w0 = some (0, w1))
    (hpage : Simulator.fsFormat ts totalSize.toNat blockSize.toNat fs = (⟨true, msg⟩, fs1)) :
    ∃ w2, fsMount w1 = some (0, w2) ∧ Agree w2 fs1 ∧ ∀ calls : List (FileCall × JsString),
      Always runBoth (fun s c => Storable s.1.find s.1.sb c.1.op) (w2, fs1) calls →
      (Throughout runBoth SameStep (w2, fs1) calls ↔
        Always runBoth (fun s c => Alike s.2 c.1.op) (w2, fs1) calls) := by
  obtain ⟨h, w2, hmount, hrep, hv⟩ := mount_initial hf hcore
  obtain ⟨hfmt, rfl⟩ := fsFormat_eq hpage
  have hm := matches_initial h now w1.out ts hfmt
  exact ⟨w2, hmount, agree_of_matches hrep hv hm,
    fun calls => runBoth_same_iff hrep hv hm calls⟩

/-- A file made and looked at in both. -/
theorem page_simulates_iff_four : ∃ w1 w2 fs1,
    fsFormat 0 576 144 (.start none 0 0) = some (0, w1) ∧ fsMount w1 = some (0, w2) ∧
    (Simulator.fsFormat [] 576 144 FS.start).1.ok = true ∧
    (Simulator.fsFormat [] 576 144 FS.start).2 = fs1 ∧ Agree w2 fs1 ∧
    Throughout runBoth SameStep (w2, fs1) [(⟨.create ⟨[97], by decide⟩, 1⟩, []),
      (⟨.read ⟨[97], by decide⟩, 2⟩, [])] := by
  obtain ⟨w1, hfmt⟩ := fsFormat_four
  have hok : (Simulator.fsFormat [] 576 144 FS.start).1.ok = true := by decide
  have hpage : Simulator.fsFormat [] 576 144 FS.start =
      (⟨true, (Simulator.fsFormat [] 576 144 FS.start).1.msg⟩,
        (Simulator.fsFormat [] 576 144 FS.start).2) := by
    rw [← hok]
  obtain ⟨w2, hmount, hagree, hall⟩ := page_simulates_iff rfl hfmt hpage
  refine ⟨w1, w2, _, hfmt, hmount, hok, rfl, hagree, (hall _ ?_).mpr ?_⟩
  · exact ⟨trivial, fun _ _ _ => ⟨trivial, fun _ _ _ => trivial⟩⟩
  · exact ⟨trivial, fun _ _ _ => ⟨trivial, fun _ _ _ => trivial⟩⟩

set_option maxRecDepth 100000 in
/-- A file without content that was written and deleted keeps its block in the core, and gives it
back on the page. -/
theorem emptyWrite_diverges : ∃ w1 w2 s, fsFormat 0 576 144 (.start none 0 0) = some (0, w1) ∧
    fsMount w1 = some (0, w2) ∧
    runList runBoth [(⟨.create ⟨[97], by decide⟩, 1⟩, []),
      (⟨.write ⟨[97], by decide⟩ ⟨[], by decide⟩, 2⟩, []),
      (⟨.delete ⟨[97], by decide⟩, 3⟩, [])] (w2, (Simulator.fsFormat [] 576 144 FS.start).2) =
        some ([(0, true), (0, true), (0, true)], s) ∧ ¬ Agree s.1 s.2 := by
  have hmounted := exists_mounted 576 144
    (fun w2 => (runList runBoth [(⟨.create ⟨[97], by decide⟩, 1⟩, []),
      (⟨.write ⟨[97], by decide⟩ ⟨[], by decide⟩, 2⟩, []), (⟨.delete ⟨[97], by decide⟩, 3⟩, [])]
        (w2, (Simulator.fsFormat [] 576 144 FS.start).2)).any fun k =>
          k.1 = [(0, true), (0, true), (0, true)] ∧ k.2.1.sb.freeBlocks = 0 ∧
            k.2.2.superblock.freeBlocks = 1)
  obtain ⟨w1, w2, hfmt, hmount, h2⟩ := hmounted (by decide +kernel)
  obtain ⟨rs, s, hcalls, h3⟩ := exists_of_any h2
  obtain ⟨rfl, hcore, hpage⟩ := of_decide_eq_true h3
  refine ⟨w1, w2, s, hfmt, hmount, hcalls, fun hagree => ?_⟩
  have hfree := hagree.freeBlocks
  rw [hcore, hpage] at hfree
  exact absurd hfree (by decide)

end MiniFs.Properties

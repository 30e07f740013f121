import MiniFs.Simulator.Check

/-! # Steps that keep the blocks of files apart

The page takes block numbers from a count of the blocks in use, so a file that is
rewritten or made after another one was deleted may be given numbers that a third
file holds. A step keeps names valid and blocks apart exactly if that does not
happen and it gives no empty name.
-/

set_option autoImplicit false

namespace MiniFs.Simulator

/-- The files of other names hold none of the numbers. -/
def OthersAvoid (fs : FS) (name : JsString) (bs : List ℤ) : Prop :=
  ∀ f ∈ fs.files, f.name ≠ name → ∀ b ∈ f.blocks, b ∉ bs

/-- The numbers that follow the count of the blocks in use, as many as the call needs, are in no
other file. -/
def TakesFree (fs : FS) : Op → Prop
  | .write name content => ∀ f, fs.find name = some f →
    OthersAvoid fs name (newBlocks fs f.blocks.length content.length)
  | .append name data => ∀ f, fs.find name = some f →
    OthersAvoid fs name (newBlocks fs f.blocks.length (f.content ++ data).length)
  | .truncate name newSize => ∀ f, fs.find name = some f →
    OthersAvoid fs name (newBlocks fs f.blocks.length (sliceTo f.content newSize).length)
  | .copy src dst => ∀ f, fs.find src = some f → f.size ≠ 0 →
    OthersAvoid fs dst (newBlocks fs 0 f.content.length)
  | _ => True

def GivesName : Op → Prop
  | .create name | .rename _ name | .copy _ name => name ≠ []
  | _ => True

/-- If the call is accepted, it gives no empty name and takes blocks of no other file. -/
def KeepsApart (fs : FS) (op : Op) : Prop := Accepts fs op → GivesName op ∧ TakesFree fs op

def CopyShort : Op → Prop
  | .copy _ dst => dst.length < 32
  | _ => True

variable {fs fs' : FS} {ts name : JsString} {f f' : File} {before after : List File} {op : Op}
  {ok : Bool}

/-! ## Fresh block numbers -/

theorem nodup_newBlocks (fs : FS) (held n : ℕ) : (newBlocks fs held n).Nodup := by
  apply List.nodup_range.map_on
  intro a _ b _ hab
  omega

theorem newBlocks_bounds (h : Running fs) {held n : ℕ} (hroom : Room fs held n)
    (hheld : held ≤ fs.heldBlocks) :
    ∀ b ∈ newBlocks fs held n, fs.superblock.dataStart ≤ b ∧ b < fs.superblock.totalBlocks := by
  have hlay := h.layout
  have hused := h.accounted.used
  have hblocks := h.accounted.blocks
  have hfree := hroom.free
  intro b hb
  obtain ⟨i, hi, rfl⟩ := List.mem_map.mp hb
  rw [List.mem_range] at hi
  omega

/-! ## The files after a step -/

/-- The other files are those of other names. -/
theorem othersAvoid_iff (h : Accounted fs) (hs : Split fs name f before after) {bs : List ℤ} :
    OthersAvoid fs name bs ↔ ∀ x ∈ before ++ after, ∀ b ∈ x.blocks, b ∉ bs := by
  have hnodup := h.names
  rw [hs.files, List.map_append, List.map_cons, List.nodup_middle, List.nodup_cons,
    ← List.map_append, hs.name_eq] at hnodup
  have hmem (x : File) : x ∈ before ++ after ↔ x ∈ fs.files ∧ x.name ≠ name := by
    rw [hs.files, List.perm_middle.mem_iff, List.mem_cons]
    constructor
    · intro hx
      refine ⟨.inr hx, ?_⟩
      rintro rfl
      exact hnodup.1 (List.mem_map_of_mem hx)
    · rintro ⟨rfl | hx, hne⟩
      · exact absurd hs.name_eq hne
      · exact hx
  simp only [OthersAvoid, hmem, and_imp]

theorem replaced_iff (h : Accounted fs) (hnamed : ∀ x ∈ fs.files, Named x) (hex : fs.Exclusive)
    (hs : Split fs name f before after) (hfiles : fs'.files = before ++ f' :: after)
    (hlay : SameLayout fs fs')
    (hbounds : ∀ b ∈ f'.blocks, fs.superblock.dataStart ≤ b ∧ b < fs.superblock.totalBlocks)
    (hnodup : f'.blocks.Nodup) :
    ((∀ x ∈ fs'.files, Named x) ∧ fs'.Exclusive) ↔ Named f' ∧ OthersAvoid fs name f'.blocks := by
  have hperm : fs'.files.Perm (f' :: (before ++ after)) := hfiles ▸ List.perm_middle
  have hold : fs.files.Perm (f :: (before ++ after)) := hs.files ▸ List.perm_middle
  have hrest := (apart_cons.mp ((apart_perm hold).mp hex)).2.2.2
  have hrestNamed : ∀ x ∈ before ++ after, Named x :=
    fun x hx => hnamed x (hold.mem_iff.mpr (List.mem_cons_of_mem _ hx))
  rw [FS.Exclusive, hlay.dataStart, hlay.totalBlocks, apart_perm hperm, apart_cons,
    othersAvoid_iff h hs]
  simp only [hperm.mem_iff, List.forall_mem_cons]
  tauto

theorem added_iff (hnamed : ∀ x ∈ fs.files, Named x) (hex : fs.Exclusive)
    (hfiles : fs'.files = fs.files ++ [f']) (hlay : SameLayout fs fs')
    (hnew : fs.find f'.name = none)
    (hbounds : ∀ b ∈ f'.blocks, fs.superblock.dataStart ≤ b ∧ b < fs.superblock.totalBlocks)
    (hnodup : f'.blocks.Nodup) :
    ((∀ x ∈ fs'.files, Named x) ∧ fs'.Exclusive) ↔
      Named f' ∧ OthersAvoid fs f'.name f'.blocks := by
  have hperm : fs'.files.Perm (f' :: fs.files) := hfiles ▸ List.perm_append_comm
  have havoid : OthersAvoid fs f'.name f'.blocks ↔ ∀ x ∈ fs.files, ∀ b ∈ x.blocks, b ∉ f'.blocks :=
    ⟨fun h x hx => h x hx (find_eq_none_iff.mp hnew x hx), fun h x hx _ => h x hx⟩
  rw [FS.Exclusive, hlay.dataStart, hlay.totalBlocks, apart_perm hperm, apart_cons, havoid]
  simp only [hperm.mem_iff, List.forall_mem_cons]
  rw [FS.Exclusive] at hex
  tauto

theorem kept_iff (h : Accounted fs) (hnamed : ∀ x ∈ fs.files, Named x) (hex : fs.Exclusive)
    (hs : Split fs name f before after) (hfiles : fs'.files = before ++ f' :: after)
    (hlay : SameLayout fs fs') (hblocks : f'.blocks = f.blocks) :
    ((∀ x ∈ fs'.files, Named x) ∧ fs'.Exclusive) ↔ Named f' := by
  have hold : fs.files.Perm (f :: (before ++ after)) := hs.files ▸ List.perm_middle
  obtain ⟨hbounds, hnodup, havoid, -⟩ := apart_cons.mp ((apart_perm hold).mp hex)
  rw [← hblocks] at hbounds hnodup havoid
  rw [replaced_iff h hnamed hex hs hfiles hlay hbounds hnodup, othersAvoid_iff h hs]
  exact and_iff_left havoid

/-- A step keeps names valid and blocks apart if and only if its call does. -/
theorem step_keepsApart_iff (h : Running fs) (hnamed : ∀ x ∈ fs.files, Named x)
    (hex : fs.Exclusive) (hshort : CopyShort op) (hstep : Step ts fs op ok fs') :
    ((∀ x ∈ fs'.files, Named x) ∧ fs'.Exclusive) ↔ KeepsApart fs op := by
  have hacc := h.accounted
  have hlay := hstep.sameLayout
  have hmine : ok = true → (KeepsApart fs op ↔ GivesName op ∧ TakesFree fs op) := by
    rintro rfl
    have ha := hstep.accepts
    exact ⟨fun hk => hk ha, fun hk _ => hk⟩
  cases hstep with
  | create hlen hnew hfree =>
    rw [hmine rfl, added_iff hnamed hex rfl hlay hnew (fun b hb => absurd hb List.not_mem_nil)
      List.nodup_nil]
    simp [Named, GivesName, TakesFree, OthersAvoid, newFile, hlen]
  | @rewrite op name content f hf hop hroom =>
    obtain ⟨before, after, hs⟩ := exists_split hf
    have hheld : f.blocks.length ≤ fs.heldBlocks := by
      rw [heldBlocks_split hs]
      omega
    have hf' : Named (stored ts fs f content) := hnamed f (mem_of_find hf)
    have hfiles : ((fs.charge f.blocks.length content.length).assign name
        (stored ts fs f content)).files = before ++ stored ts fs f content :: after :=
      (hs.congr rfl).assign _
    rw [hmine rfl, replaced_iff hacc hnamed hex hs hfiles hlay (newBlocks_bounds h hroom hheld)
      (nodup_newBlocks fs _ _)]
    have htakes : TakesFree fs op ↔
        OthersAvoid fs name (newBlocks fs f.blocks.length content.length) := by
      cases hop <;> simp [TakesFree, hf]
    have hgives : GivesName op := by cases hop <;> trivial
    rw [htakes]
    exact ⟨fun hk => ⟨hgives, hk.2⟩, fun hk => ⟨hf', hk.2⟩⟩
  | @read name f hf =>
    obtain ⟨before, after, hs⟩ := exists_split hf
    have hfiles : ((fs.countRead f.size).assign name { f with atime := ts }).files =
        before ++ { f with atime := ts } :: after := (hs.congr rfl).assign _
    rw [hmine rfl, kept_iff hacc hnamed hex hs hfiles hlay rfl]
    exact iff_of_true (hnamed f (mem_of_find hf)) ⟨trivial, trivial⟩
  | @rename oldName newName f hf hnew hlen =>
    obtain ⟨before, after, hs⟩ := exists_split hf
    rw [hmine rfl, kept_iff hacc hnamed hex hs (hs.assign _) hlay rfl]
    simp [Named, GivesName, TakesFree, hlen]
  | @copyEmpty src dst f hf hnew hfree hsize =>
    rw [hmine rfl, added_iff hnamed hex rfl hlay hnew (fun b hb => absurd hb List.not_mem_nil)
      List.nodup_nil]
    have hlen : dst.length < 32 := hshort
    simp [Named, GivesName, TakesFree, OthersAvoid, newFile, hlen, hf, hsize]
  | @copy src dst f hf hnew hfree hsize hroom =>
    have hfiles : ((fs.charge 0 f.content.length).push
        (stored ts fs (newFile ts fs dst f.mode) f.content)).files =
          fs.files ++ [stored ts fs (newFile ts fs dst f.mode) f.content] := rfl
    rw [hmine rfl, added_iff hnamed hex hfiles hlay hnew
      (newBlocks_bounds h hroom (Nat.zero_le _)) (nodup_newBlocks fs _ _)]
    have hlen : dst.length < 32 := hshort
    have htakes : TakesFree fs (.copy src dst) ↔
        OthersAvoid fs dst (newBlocks fs 0 f.content.length) := by
      simp [TakesFree, hf, hsize]
    rw [htakes]
    exact ⟨fun hk => ⟨hk.1.1, hk.2⟩, fun hk => ⟨⟨hk.1, hlen⟩, hk.2⟩⟩
  | @chmod name modeOctal f hf =>
    obtain ⟨before, after, hs⟩ := exists_split hf
    rw [hmine rfl, kept_iff hacc hnamed hex hs (hs.assign _) hlay rfl]
    exact iff_of_true (hnamed f (mem_of_find hf)) ⟨trivial, trivial⟩
  | @delete name f hf =>
    obtain ⟨before, after, hs⟩ := exists_split hf
    have hfiles : (fs.remove name f).files = before ++ after := hs.eraseIdx
    have hold : fs.files.Perm (f :: (before ++ after)) := hs.files ▸ List.perm_middle
    rw [hmine rfl]
    refine iff_of_true ⟨fun x hx => ?_, ?_⟩ ⟨trivial, trivial⟩
    · rw [hfiles] at hx
      exact hnamed x (hold.mem_iff.mpr (List.mem_cons_of_mem _ hx))
    · rw [FS.Exclusive, hfiles]
      exact (apart_cons.mp ((apart_perm hold).mp hex)).2.2.2
  | rejected hno hsame =>
    refine iff_of_true ?_ fun ha => absurd ha hno
    rw [FS.Exclusive, hsame.files, hsame.superblock]
    exact ⟨hnamed, hex⟩

end MiniFs.Simulator

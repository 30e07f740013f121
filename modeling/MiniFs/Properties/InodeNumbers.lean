import MiniFs.Simulator.Accounting

/-! # Inode numbers of the page

The page numbers its inodes from a counter that only grows, while the number of
files is bounded by a second counter that a delete turns back. The numbers are
always different; they stay below the length of the inode table as long as a file
is only made while the first counter is below it.
-/

set_option autoImplicit false

namespace MiniFs.Properties
open Simulator Library.Exec

def inodes (fs : FS) : List ℕ := fs.files.map File.inode

/-- Every file has a slot of the inode table of its own. -/
structure ValidSlots (fs : FS) : Prop where
  distinct : (inodes fs).Nodup
  lt_max : ∀ f ∈ fs.files, (f.inode : ℤ) < fs.superblock.maxInodes

def MakesFile : Op → Prop
  | .create _ | .copy _ _ => True
  | _ => False

instance (op : Op) : Decidable (MakesFile op) :=
  match op with
  | .create _ | .copy _ _ => isTrue trivial
  | .write _ _ | .append _ _ | .read _ | .rename _ _ | .truncate _ _ | .chmod _ _ | .delete _ =>
    isFalse id

/-- If the call makes a file, the next number is one of the table. -/
def TakesSlot (fs : FS) (op : Op) : Prop :=
  MakesFile op → Accepts fs op → (fs.nextInode : ℤ) < fs.superblock.maxInodes

variable {fs fs' : FS} {ts name : JsString} {f : File} {op : Op} {ok : Bool}

/-! ## Steps -/

theorem inodes_assign (hf : fs.find name = some f) {f' : File} (hinode : f'.inode = f.inode) :
    (inodes (fs.assign name f')).Sublist (inodes fs) := by
  obtain ⟨before, after, hs⟩ := exists_split hf
  rw [inodes, hs.assign, inodes, hs.files]
  simp [hinode]

/-- A call gives the next number to a new file, or it gives no number. -/
theorem Step.inodes (h : Step ts fs op ok fs') :
    (MakesFile op ∧ Accepts fs op ∧ Properties.inodes fs' = Properties.inodes fs ++ [fs.nextInode] ∧
      fs'.nextInode = fs.nextInode + 1) ∨
    ((MakesFile op → ¬ Accepts fs op) ∧ (Properties.inodes fs').Sublist (Properties.inodes fs) ∧
      fs.nextInode ≤ fs'.nextInode) := by
  cases h with
  | create hlen hnew hfree => exact .inl ⟨trivial, ⟨hlen, hnew, hfree⟩, List.map_append, rfl⟩
  | copyEmpty hf hnew hfree hsize =>
    exact .inl ⟨trivial, ⟨_, hf, hnew, hfree, fun h => absurd hsize h⟩, List.map_append, rfl⟩
  | copy hf hnew hfree hsize hroom =>
    exact .inl ⟨trivial, ⟨_, hf, hnew, hfree, fun _ => hroom⟩, List.map_append, rfl⟩
  | rewrite hf hop hroom =>
    refine .inr ⟨?_, ?_, le_rfl⟩
    · cases hop <;> exact False.elim
    · exact inodes_assign hf rfl
  | read hf => exact .inr ⟨False.elim, inodes_assign hf rfl, le_rfl⟩
  | rename hf hnew hlen => exact .inr ⟨False.elim, inodes_assign hf rfl, le_rfl⟩
  | chmod hf => exact .inr ⟨False.elim, inodes_assign hf rfl, le_rfl⟩
  | delete hf => exact .inr ⟨False.elim, (List.eraseIdx_sublist _ _).map _, le_rfl⟩
  | rejected hno hsame =>
    refine .inr ⟨fun _ => hno, ?_, hsame.nextInode⟩
    rw [Properties.inodes, hsame.files, Properties.inodes]

theorem nextInode_afterWrite (ts name : JsString) (done : Msg) (f : File) (content : JsString) :
    (afterWrite fs name done (doWrite ts fs f content)).2.nextInode = fs.nextInode := by
  by_cases hroom : Room fs f.blocks.length content.length
  · rw [doWrite_room hroom]
    rfl
  · obtain ⟨msg, hmsg⟩ := doWrite_refused ts hroom
    rw [hmsg]
    rfl

theorem nextInode_afterCopy (ts : JsString) (done : Msg) (f : File) (content : JsString) :
    (afterCopy fs done (doWrite ts fs f content)).2.nextInode = fs.nextInode := by
  by_cases hroom : Room fs f.blocks.length content.length
  · rw [doWrite_room hroom]
    rfl
  · obtain ⟨msg, hmsg⟩ := doWrite_refused ts hroom
    rw [hmsg]
    rfl

/-- Only calls that make a file use up a number, even if they fail. -/
theorem nextInode_perform (hfmt : fs.formatted = true) (ts : JsString) (op : Op) :
    (perform ts op fs).2.nextInode = fs.nextInode ∨
      MakesFile op ∧ (perform ts op fs).2.nextInode = fs.nextInode + 1 := by
  cases op with
  | create name =>
    rw [perform, fsCreate, if_neg (guard_formatted hfmt)]
    split_ifs
    · exact .inl rfl
    · exact .inl rfl
    · exact .inl rfl
    · exact .inr ⟨trivial, rfl⟩
  | copy src dst =>
    rw [perform, fsCopy, if_neg (guard_formatted hfmt)]
    cases fs.find src with
    | none => exact .inl rfl
    | some f =>
      simp only
      split_ifs
      · exact .inl rfl
      · exact .inl rfl
      · exact .inr ⟨trivial, nextInode_afterCopy ts (.copied src dst f.size fs.nextInode) _ _⟩
      · exact .inr ⟨trivial, rfl⟩
  | write name content =>
    refine .inl ?_
    rw [perform, fsWrite, if_neg (guard_formatted hfmt)]
    cases fs.find name with
    | none => rfl
    | some f => exact nextInode_afterWrite ts name (.wrote content.length name) f content
  | append name data =>
    refine .inl ?_
    rw [perform, fsAppend, if_neg (guard_formatted hfmt)]
    cases fs.find name with
    | none => rfl
    | some f =>
      exact nextInode_afterWrite ts name (.appended data.length name (f.content ++ data).length) f _
  | truncate name newSize =>
    refine .inl ?_
    rw [perform, fsTruncate, if_neg (guard_formatted hfmt)]
    cases fs.find name with
    | none => rfl
    | some f =>
      simp only
      split_ifs
      · rfl
      · exact nextInode_afterWrite ts name (.truncated name newSize) f _
  | read name =>
    refine .inl ?_
    rw [perform, fsRead, if_neg (guard_formatted hfmt)]
    cases fs.find name with
    | none => rfl
    | some f =>
      simp only
      split_ifs <;> rfl
  | rename oldName newName =>
    refine .inl ?_
    rw [perform, fsRename, if_neg (guard_formatted hfmt)]
    cases fs.find oldName with
    | none => rfl
    | some f =>
      simp only
      split_ifs <;> rfl
  | chmod name mode =>
    refine .inl ?_
    rw [perform, fsChmod, if_neg (guard_formatted hfmt)]
    cases fs.find name <;> rfl
  | delete name =>
    refine .inl ?_
    rw [perform, fsDelete, if_neg (guard_formatted hfmt)]
    cases fs.find name <;> rfl

/-- All numbers given so far are different and below the next one. -/
structure Numbered (fs : FS) : Prop where
  distinct : (inodes fs).Nodup
  lt_next : ∀ i ∈ inodes fs, i < fs.nextInode

theorem Numbered.step (h : Numbered fs) (hstep : Step ts fs op ok fs') : Numbered fs' := by
  rcases Step.inodes hstep with ⟨-, -, hfiles, hnext⟩ | ⟨-, hsub, hnext⟩
  · constructor
    · rw [hfiles, List.nodup_append]
      refine ⟨h.distinct, List.nodup_singleton _, ?_⟩
      intro i hi j hj
      rw [List.mem_singleton] at hj
      exact hj ▸ (h.lt_next i hi).ne
    · intro i hi
      rw [hfiles, List.mem_append, List.mem_singleton] at hi
      rcases hi with hi | rfl
      · exact (h.lt_next i hi).trans (hnext ▸ Nat.lt_succ_self _)
      · exact hnext ▸ Nat.lt_succ_self _
  · exact ⟨hsub.nodup h.distinct, fun i hi => (h.lt_next i (hsub.subset hi)).trans_le hnext⟩

theorem Numbered.valid_iff (h : Numbered fs) :
    ValidSlots fs ↔ ∀ i ∈ inodes fs, (i : ℤ) < fs.superblock.maxInodes := by
  constructor
  · intro hv i hi
    obtain ⟨f, hf, rfl⟩ := List.mem_map.mp hi
    exact hv.lt_max f hf
  · exact fun hall => ⟨h.distinct, fun f hf => hall f.inode (List.mem_map_of_mem hf)⟩

/-- A step keeps the slots valid if and only if a file it makes takes a slot of the table. -/
theorem step_validSlots_iff (h : Numbered fs) (hv : ValidSlots fs) (hstep : Step ts fs op ok fs') :
    ValidSlots fs' ↔ TakesSlot fs op := by
  have hold := h.valid_iff.mp hv
  rw [(h.step hstep).valid_iff, hstep.sameLayout.maxInodes]
  rcases Step.inodes hstep with ⟨hmakes, hacc, hfiles, -⟩ | ⟨hno, hsub, -⟩
  · rw [hfiles]
    constructor
    · exact fun hall _ _ => hall _ (List.mem_append_right _ (List.mem_singleton_self _))
    · intro htakes i hi
      rw [List.mem_append, List.mem_singleton] at hi
      rcases hi with hi | rfl
      · exact hold i hi
      · exact htakes hmakes hacc
  · exact iff_of_true (fun i hi => hold i (hsub.subset hi))
      fun hmakes hacc => absurd hacc (hno hmakes)

/-! ## Runs -/

theorem runPage_validSlots_iff (hfmt : fs.formatted = true) (h : Numbered fs) (hv : ValidSlots fs)
    (calls : List Call) :
    Throughout runPage (fun _ _ _ fs' => ValidSlots fs') fs calls ↔
      Always runPage (fun fs c => TakesSlot fs c.op) fs calls := by
  induction calls generalizing fs with
  | nil => exact iff_of_true trivial trivial
  | cons c calls ih =>
    obtain ⟨r, fs1, hrun, hstep⟩ := runPage_step hfmt c
    have hiff := step_validSlots_iff h hv hstep
    rw [throughout_cons hrun, always_cons hrun, hiff]
    refine and_congr_right fun htakes => ?_
    exact ih (hstep.sameLayout.formatted.trans hfmt) (h.step hstep) (hiff.mpr htakes)

/-- No more calls make a file than the table has slots left. -/
theorem takesSlot_of_few (hfmt : fs.formatted = true) (calls : List Call)
    (hfew : (fs.nextInode : ℤ) + calls.countP (fun c => MakesFile c.op) ≤
      fs.superblock.maxInodes) : Always runPage (fun fs c => TakesSlot fs c.op) fs calls := by
  induction calls generalizing fs with
  | nil => trivial
  | cons c calls ih =>
    obtain ⟨r, fs1, hrun, hstep⟩ := runPage_step hfmt c
    rw [always_cons hrun]
    have hnext := nextInode_perform hfmt c.ts c.op
    have hfs1 : (perform c.ts c.op fs).2 = fs1 := by
      simpa [runPage] using congrArg (Option.map Prod.snd) hrun
    rw [hfs1] at hnext
    rw [List.countP_cons] at hfew
    refine ⟨fun hmakes _ => ?_, ih (hstep.sameLayout.formatted.trans hfmt) ?_⟩
    · rw [if_pos (by simpa using hmakes)] at hfew
      omega
    · rw [hstep.sameLayout.maxInodes]
      rcases hnext with heq | ⟨hmakes, heq⟩
      · rw [heq]
        split_ifs at hfew <;> omega
      · rw [if_pos (by simpa using hmakes)] at hfew
        rw [heq]
        omega

/-- From an accepted format on: every file has a slot of the inode table of its own after each
call, if and only if no call makes a file once as many numbers were given as the table has slots. -/
theorem validSlots_iff {totalSize blockSize : ℤ} {msg : Msg}
    (h : fsFormat ts totalSize blockSize fs = (⟨true, msg⟩, fs')) :
    ValidSlots fs' ∧ ∀ calls : List Call,
      (Throughout runPage (fun _ _ _ fs'' => ValidSlots fs'') fs' calls ↔
        Always runPage (fun fs c => TakesSlot fs c.op) fs' calls) := by
  obtain ⟨-, rfl⟩ := fsFormat_eq h
  have hv : ValidSlots (emptyFS ts totalSize blockSize) :=
    ⟨List.nodup_nil, fun f hf => absurd hf List.not_mem_nil⟩
  have hnum : Numbered (emptyFS ts totalSize blockSize) :=
    ⟨List.nodup_nil, fun i hi => absurd hi List.not_mem_nil⟩
  exact ⟨hv, fun calls => runPage_validSlots_iff rfl hnum hv calls⟩

/-- From an accepted format on, slots stay valid in every run with no more calls that make a file
than the table has slots. -/
theorem validSlots_of_few {totalSize blockSize : ℤ} {msg : Msg}
    (h : fsFormat ts totalSize blockSize fs = (⟨true, msg⟩, fs')) (calls : List Call)
    (hfew : (calls.countP (fun c => MakesFile c.op) : ℤ) ≤ fs'.superblock.maxInodes) :
    Throughout runPage (fun _ _ _ fs'' => ValidSlots fs'') fs' calls := by
  obtain ⟨-, rfl⟩ := fsFormat_eq h
  have hv : ValidSlots (emptyFS ts totalSize blockSize) :=
    ⟨List.nodup_nil, fun f hf => absurd hf List.not_mem_nil⟩
  have hnum : Numbered (emptyFS ts totalSize blockSize) :=
    ⟨List.nodup_nil, fun i hi => absurd hi List.not_mem_nil⟩
  refine (runPage_validSlots_iff rfl hnum hv calls).mpr (takesSlot_of_few rfl calls ?_)
  exact (zero_add _).trans_le hfew

/-- Whatever the calls, no two files have one inode number. -/
theorem inodes_nodup {totalSize blockSize : ℤ} {msg : Msg}
    (h : fsFormat ts totalSize blockSize fs = (⟨true, msg⟩, fs')) (calls : List Call) :
    (inodes (performAll calls fs')).Nodup := by
  obtain ⟨hfmt, rfl⟩ := fsFormat_eq h
  have hrun : Running (emptyFS ts totalSize blockSize) ∧ Numbered (emptyFS ts totalSize blockSize) :=
    ⟨emptyFS_running hfmt ts, List.nodup_nil, fun i hi => absurd hi List.not_mem_nil⟩
  generalize emptyFS ts totalSize blockSize = fs at hrun
  induction calls generalizing fs with
  | nil => exact hrun.2.distinct
  | cons c calls ih =>
    have hstep := perform_step hrun.1.formatted c.ts c.op
    exact ih _ ⟨hrun.1.perform c.ts c.op, hrun.2.step hstep⟩

/-- A table of one slot, and a file made in it. -/
theorem validSlots_iff_one : ValidSlots (fsFormat [] 576 144 FS.start).2 ∧
    Throughout runPage (fun _ _ _ fs => ValidSlots fs) (fsFormat [] 576 144 FS.start).2
      [⟨.create [97], []⟩, ⟨.write [97] [1], []⟩] := by
  have h : fsFormat [] 576 144 FS.start =
      (⟨true, (fsFormat [] 576 144 FS.start).1.msg⟩, (fsFormat [] 576 144 FS.start).2) := by
    rfl
  obtain ⟨hv, hall⟩ := validSlots_iff h
  exact ⟨hv, (hall _).mpr
    ⟨fun _ _ => by decide, fun _ _ _ => ⟨fun hmakes => hmakes.elim, fun _ _ _ => trivial⟩⟩⟩

/-- The only file of a table of one slot is deleted and made again: its number is 1. -/
theorem remade_out_of_table : ∃ fs1, fsFormat [] 576 144 FS.start =
      (⟨true, (fsFormat [] 576 144 FS.start).1.msg⟩, fs1) ∧ fs1.superblock.maxInodes = 1 ∧
    inodes (performAll [⟨.create [97], []⟩, ⟨.delete [97], []⟩, ⟨.create [97], []⟩] fs1) = [1] ∧
    ¬ ValidSlots
      (performAll [⟨.create [97], []⟩, ⟨.delete [97], []⟩, ⟨.create [97], []⟩] fs1) := by
  refine ⟨_, rfl, by decide, by decide, ?_⟩
  intro hv
  exact absurd (hv.lt_max ⟨[97], 1, 0, [], 0o100644, [], [], [], [], 1⟩ (List.mem_singleton_self _))
    (by decide)

end MiniFs.Properties

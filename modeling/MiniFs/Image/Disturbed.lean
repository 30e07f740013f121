import MiniFs.Image.SystemCalls

/-! # Look-ups while system calls fail

A slot that cannot be read is passed over. A look-up on a failing disk is
therefore a look-up among the slots it can read.
-/

set_option autoImplicit false

namespace MiniFs.Core
open Library Library.Exec

def World.still (w : World) : World := { w with faults := noFaults }

def World.say (w : World) (msgs : List Message) : World := { w with out := w.out ++ msgs }

def readErrors (f : ℕ → Fault) (n : ℕ) : List Message :=
  (List.range n).filterMap fun i => (f i).map fun _ => .diskReadPread

/-- The first of `n` slots that can be read, one call a slot, and passes the test. -/
def firstRead (slot : ℕ → Option Inode) (n : ℕ) (f : ℕ → Fault) (p : Inode → Bool) : Option ℕ :=
  (List.range n).find? fun i => (f i).isNone && (slot i).any p

theorem World.say_nil (w : World) : w.say [] = w := by
  rw [World.say, List.append_nil]

theorem World.say_say (w : World) (l m : List Message) : (w.say l).say m = w.say (l ++ m) := by
  simp only [World.say, List.append_assoc]

theorem readErrors_succ (f : ℕ → Fault) (n : ℕ) :
    readErrors f (n + 1) = readErrors f n ++ readErrors (skip n f) 1 := by
  simp only [readErrors, List.range_succ, List.filterMap_append, List.range_zero, List.nil_append,
    skip]
  rfl

theorem eq_diskReadPread {f : ℕ → Fault} {n : ℕ} {msg : Message} (h : msg ∈ readErrors f n) :
    msg = .diskReadPread := by
  obtain ⟨i, -, hi⟩ := List.mem_filterMap.mp h
  obtain ⟨-, -, rfl⟩ := Option.map_eq_some_iff.mp hi
  rfl

theorem readErrors_noFaults (n : ℕ) : readErrors noFaults n = [] :=
  List.filterMap_eq_nil_iff.mpr fun _ _ => rfl

section FirstRead
variable {slot : ℕ → Option Inode} {n i : ℕ} {f : ℕ → Fault} {p : Inode → Bool}

theorem firstRead_eq_some (h : firstRead slot n f p = some i) : i < n ∧ f i = none ∧
    (∃ x, slot i = some x ∧ p x = true) ∧
    ∀ j < i, f j = none → ∀ y, slot j = some y → p y = false := by
  obtain ⟨hp, hlt, hbefore⟩ := List.find?_range_eq_some.mp h
  obtain ⟨hf, hx⟩ := Bool.and_eq_true_iff.mp hp
  refine ⟨List.mem_range.mp hlt, Option.isNone_iff_eq_none.mp hf, (Option.any_eq_true _ _).mp hx, ?_⟩
  intro j hj hfj y hy
  simpa [hfj, hy] using hbefore j hj

theorem firstRead_eq_none (h : firstRead slot n f p = none) {j : ℕ} (hj : j < n)
    (hf : f j = none) {y : Inode} (hy : slot j = some y) : p y = false := by
  simpa [hf, hy] using List.find?_range_eq_none.mp h j hj

end FirstRead

end MiniFs.Core

namespace MiniFs.Image
open MiniFs.Core Library Library.Exec Library.Chunks

variable {g : Geometry} {s : World} {v : View} {f : ℕ → Fault}

theorem Represents.open (h : Represents g s v) (hv : v.faults = noFaults) : Open g s :=
  ⟨h.fd, h.sb ▸ h.layout, h.faults.trans hv⟩

theorem Represents.say (h : Represents g s v) (msgs : List Message) :
    Represents g (s.say msgs) (v.say msgs) :=
  { h with out := congrArg (· ++ msgs) h.out }

theorem Represents.disturb (h : Represents g s v) (f : ℕ → Fault) :
    Represents g (callTape.set f s) { v with faults := f } :=
  { h with faults := rfl }

theorem Steady.say (h : Steady g v) (msgs : List Message) : Steady g (v.say msgs) :=
  ⟨h.sound, h.faults⟩

/-- The state after `n` reads of slots that ended as the tape says. -/
def afterReads (f : ℕ → Fault) (n : ℕ) (s : World) : World :=
  callTape.set (skip n f) (s.say (readErrors f n))

theorem afterReads_zero (f : ℕ → Fault) (s : World) : afterReads f 0 s = callTape.set f s := by
  rw [afterReads, skip_zero]
  exact congrArg (callTape.set f) s.say_nil

theorem afterReads_add (f : ℕ → Fault) (n : ℕ) (s : World) :
    afterReads (skip n f) 1 (s.say (readErrors f n)) = afterReads f (n + 1) s := by
  rw [afterReads, afterReads, skip_skip, World.say_say, ← readErrors_succ]

theorem mallocRead_failed (hfd : s.fd = .opened) {junk : ℕ → UInt8} (hf : f 0 = some junk)
    (b n : UInt32) : ∃ buf, mallocRead b n (callTape.set f s) = some ((-1, buf), afterReads f 1 s) := by
  refine ⟨(List.range ((List.range n.toNat).map s.garbage).length).map junk, ?_⟩
  have hread : readErrors f 1 = [.diskReadPread] := by simp [readErrors, hf]
  have hskip : skip 1 f = fun k => f (k + 1) := funext fun k => congrArg f (Nat.add_comm 1 k)
  simp only [mallocRead, malloc, diskRead, bind_apply, ask_apply, Option.bind_some, callTape, hfd,
    nextFault, hf, emit, update_apply, pure_apply, afterReads, hread, hskip, World.say]

theorem inodeRead_disturbed (h : Represents g s v) (hv : Steady g v) {i : ℕ} {x : Inode}
    (hi : v.vol.inodes[i]? = some x) (f : ℕ → Fault) :
    inodeRead (UInt32.ofNat i) (callTape.set f s) =
      some (if (f 0).isNone then some x else none, afterReads f 1 s) := by
  have hlt := hv.sound.slot_lt hi
  have hlt' : (UInt32.ofNat i).toNat < g.maxInodes := by rwa [Geometry.toNat_slot hlt]
  have hid : ¬ s.sb.maxInodes ≤ UInt32.ofNat i := by
    rw [UInt32.le_iff_toNat_le, h.sb, h.layout.maxInodes]
    omega
  cases hf : f 0 with
  | none =>
    obtain ⟨disk, bytes, hfile, -, hh, -⟩ := h.memory
    have hread : inodeRead (UInt32.ofNat i) s = some (some x, s) := by
      obtain ⟨hlen, rfl⟩ := List.getElem?_eq_some_iff.mp hi
      rw [inodeRead_ready (h.sb ▸ h.layout) (h.ready hv.faults hfile hh) hlt',
        Geometry.toNat_slot hlt, hh.inode i hlen, inodeCodec.decode_encode]
    obtain ⟨-, n, hn, hspend⟩ := inodeRead_spends (h.open hv.faults) (UInt32.ofNat i) _ _ hread
    obtain rfl : n = 1 := hn.trans (if_neg hid)
    have hclear : callTape.Clear 1 f := fun k hk => by
      obtain rfl := Nat.lt_one_iff.mp hk
      exact hf
    have hquiet : readErrors f 1 = [] := by simp [readErrors, hf]
    rw [hspend f hclear, afterReads, hquiet, World.say_nil]
    rfl
  | some junk =>
    obtain ⟨blk, hloc, -⟩ := inodeLocation_eq (h.sb ▸ h.layout) hlt' (callTape.set f s)
    obtain ⟨buf, hread⟩ := mallocRead_failed h.fd hf blk s.sb.blockSize
    have hsb : (callTape.set f s).sb = s.sb := rfl
    simp only [inodeRead, getSb, bind_apply, ask_apply, Option.bind_some, hsb, if_neg hid, hloc,
      hread]
    rfl

/-! ## Scans of the inode table -/

abbrev Volume.firstRead (vol : Volume) (f : ℕ → Fault) (p : Inode → Bool) : Option ℕ :=
  Core.firstRead (fun i => vol.inodes[i]?) vol.sb.maxInodes.toNat f p

/-- Slot `i` of a scan that has come so far. -/
theorem inodeRead_afterReads (h : Represents g s v) (hv : Steady g v) {i : ℕ} {x : Inode}
    (hi : v.vol.inodes[i]? = some x) (f : ℕ → Fault) :
    inodeRead (UInt32.ofNat i) (afterReads f i s) =
      some (if (f i).isNone then some x else none, afterReads f (i + 1) s) := by
  rw [← afterReads_add]
  exact inodeRead_disturbed (h.say _) (hv.say _) hi (skip i f)

/-- The body of a scan: read a slot, and if its inode passes the test, leave with what `hit` makes
of it. -/
structure TableScan (vol : Volume) {β : Type} (body : ℕ → M (Option β)) (p : Inode → Bool)
    (hit : ℕ → Inode → M β) : Prop where
  unread : ∀ i s s', inodeRead (UInt32.ofNat i) s = some (none, s') → body i s = some (none, s')
  pass : ∀ i x, vol.inodes[i]? = some x → p x = false → ∀ s s',
    inodeRead (UInt32.ofNat i) s = some (some x, s') → body i s = some (none, s')
  hit : ∀ i x, vol.inodes[i]? = some x → p x = true → ∀ s s',
    inodeRead (UInt32.ofNat i) s = some (some x, s') →
    body i s = (hit i x >>= fun b => pure (some b)) s'

section
variable {β : Type} {body : ℕ → M (Option β)} {p : Inode → Bool} {hit : ℕ → Inode → M β}

theorem TableScan.passed (hb : TableScan v.vol body p hit) (h : Represents g s v)
    (hv : Steady g v) {i : ℕ}
    {x : Inode} (hi : v.vol.inodes[i]? = some x) (hno : f i = none → p x = false) :
    body i (afterReads f i s) = some (none, afterReads f (i + 1) s) := by
  have hread := inodeRead_afterReads h hv hi f
  cases hf : f i with
  | none =>
    rw [hf] at hread
    exact hb.pass i x hi (hno hf) _ _ hread
  | some junk =>
    rw [hf] at hread
    exact hb.unread i _ _ hread

theorem TableScan.miss (hb : TableScan v.vol body p hit) (h : Represents g s v) (hv : Steady g v)
    (hscan : v.vol.firstRead f p = none) :
    search body s.sb.maxInodes.toNat 0 (callTape.set f s) =
      some (none, afterReads f s.sb.maxInodes.toNat s) := by
  have hn : v.vol.sb.maxInodes.toNat = v.vol.inodes.length := by
    rw [h.layout.maxInodes, hv.sound.inodes_length]
  rw [h.sb, ← afterReads_zero, search_chain (fun i => afterReads f i s) fun i _ hi => ?_,
    Nat.zero_add]
  have hi' : v.vol.inodes[i]? = some v.vol.inodes[i] :=
    List.getElem?_eq_getElem (by omega)
  exact hb.passed h hv hi' fun hf => firstRead_eq_none hscan (j := i) (by omega) hf hi'

theorem TableScan.found (hb : TableScan v.vol body p hit) (h : Represents g s v)
    (hv : Steady g v) {i : ℕ} {x : Inode} (hscan : v.vol.firstRead f p = some i)
    (hx : v.vol.inodes[i]? = some x) :
    search body s.sb.maxInodes.toNat 0 (callTape.set f s) =
      (hit i x >>= fun b => pure (some b)) (afterReads f (i + 1) s) := by
  obtain ⟨hlt, hf, ⟨y, hy, hp⟩, hbefore⟩ := firstRead_eq_some hscan
  obtain rfl := Option.some.inj (hx.symm.trans hy)
  have hn : v.vol.sb.maxInodes.toNat = v.vol.inodes.length := by
    rw [h.layout.maxInodes, hv.sound.inodes_length]
  have hread := inodeRead_afterReads h hv hx f
  rw [hf] at hread
  rw [h.sb, ← afterReads_zero]
  refine search_chain_hit (fun i => afterReads f i s) (Nat.zero_le i) (by omega) (fun j _ hj => ?_)
    (hb.hit i x hx hp _ _ hread)
  have hj' : v.vol.inodes[j]? = some v.vol.inodes[j] :=
    List.getElem?_eq_getElem (by omega)
  exact hb.passed h hv hj' fun hfj => hbefore j hj hfj _ hj'

end

theorem tableScan_matchName (hs : Sound g v.vol) (name : CStr) :
    TableScan v.vol (matchName name) (matchesName name.bytes) (fun _ x => pure x) where
  unread i s s' h := by
    rw [matchName, bind_apply, h]
    rfl
  pass i x hi hp s s' h := by
    rw [matchName, bind_apply, h, Option.bind_some]
    rcases hs.isUsed_cases hi with hfree | hlive
    · have hne : x.isUsed ≠ 1 := by rw [hfree]; decide
      simp only [hne, if_false, pure_apply]
    · have hterm := (hs.live i x hi hlive).terminated
      have hname : x.shownName ≠ name.bytes := fun he => by simp [matchesName, hlive, he] at hp
      simp only [hlive, if_true, nameEquals, bind_apply, require_pos (.inl hterm : _ ∨ _),
        pure_apply, Option.bind_some, hname, decide_false, Bool.false_eq_true, if_false]
  hit i x hi hp s s' h := by
    rw [matchesName, decide_eq_true_eq] at hp
    have hterm := (hs.live i x hi hp.1).terminated
    rw [matchName, bind_apply, h, Option.bind_some]
    simp only [hp, if_true, nameEquals, bind_apply, require_pos (.inl hterm : _ ∨ _),
      pure_apply, Option.bind_some, decide_true]

theorem tableScan_claimIfFree (vol : Volume) :
    TableScan vol claimIfFree (·.isUsed = 0) (fun i _ => claimSlot i) where
  unread i s s' h := by
    rw [claimIfFree, bind_apply, h]
    rfl
  pass i x _ hp s s' h := by
    have hne : x.isUsed ≠ 0 := of_decide_eq_false hp
    rw [claimIfFree, bind_apply, h, Option.bind_some]
    simp only [hne, if_false, pure_apply]
  hit i x _ hp s s' h := by
    have h0 : x.isUsed = 0 := of_decide_eq_true hp
    rw [claimIfFree, bind_apply, h, Option.bind_some]
    simp only [h0, if_true, claimSlot, bind_assoc, pure_bind]

/-! ## From one part of an operation to the next -/

/-- From `s`, with the tape `f`, the operation comes to the program `k` with the tape `f'`, and all
it has done is to print read errors. Without failures it comes to `k` as well, whatever was
printed. -/
structure Leads (s : World) (f : ℕ → Fault) (op : M Int) (errs : List Message) (f' : ℕ → Fault)
    (k : M Int) : Prop where
  errors : ∀ msg ∈ errs, msg = .diskReadPread
  disturbed : op (callTape.set f s) = k (callTape.set f' (s.say errs))
  calm : ∀ l, op (s.say (errs ++ l)) = k (s.say (errs ++ l))

theorem set_noFaults (h : s.faults = noFaults) : callTape.set noFaults s = s := by
  cases s
  subst h
  rfl

theorem afterReads_noFaults (h : s.faults = noFaults) (n : ℕ) : afterReads noFaults n s = s := by
  rw [afterReads, readErrors_noFaults, World.say_nil]
  exact set_noFaults h

/-- A part that reads `n` slots, and ends in the same way without failures. -/
theorem Leads.of_reads {op k : M Int} {n : ℕ} (h : Represents g s v) (hv : Steady g v)
    (hrun : op (callTape.set f s) = k (afterReads f n s))
    (hcalm : ∀ l, op (callTape.set noFaults (s.say l)) = k (afterReads noFaults n (s.say l))) :
    Leads s f op (readErrors f n) (skip n f) k where
  errors _ hmsg := eq_diskReadPread hmsg
  disturbed := hrun
  calm l := by
    have hl := (h.say (readErrors f n ++ l)).faults.trans hv.faults
    have heq := hcalm (readErrors f n ++ l)
    rwa [set_noFaults hl, afterReads_noFaults hl] at heq

/-! ## Look-ups and the search for a free slot -/

theorem inodeFindByName_hit (h : Represents g s v) (hv : Steady g v) {name : CStr} {i : ℕ}
    {x : Inode} (hf : v.vol.firstRead f (matchesName name.bytes) = some i)
    (hx : v.vol.inodes[i]? = some x) :
    inodeFindByName name (callTape.set f s) = some (some x, afterReads f (i + 1) s) :=
  (tableScan_matchName hv.sound name).found h hv hf hx

theorem inodeFindByName_miss (h : Represents g s v) (hv : Steady g v) {name : CStr}
    (hf : v.vol.firstRead f (matchesName name.bytes) = none) :
    inodeFindByName name (callTape.set f s) =
      some (none, afterReads f v.vol.sb.maxInodes.toNat s) := by
  rw [← h.sb]
  exact (tableScan_matchName hv.sound name).miss (s := s) h hv hf

theorem inodeAllocate_hit (h : Represents g s v) (hv : Steady g v) {i : ℕ} {x : Inode}
    (hf : v.vol.firstRead f (·.isUsed = 0) = some i) (hx : v.vol.inodes[i]? = some x) :
    inodeAllocate (callTape.set f s) =
      (claimSlot i >>= fun y => pure (some y)) (afterReads f (i + 1) s) :=
  (tableScan_claimIfFree v.vol).found h hv hf hx

theorem inodeAllocate_miss (h : Represents g s v) (hv : Steady g v)
    (hf : v.vol.firstRead f (·.isUsed = 0) = none) :
    inodeAllocate (callTape.set f s) =
      some (none, afterReads f v.vol.sb.maxInodes.toNat s) := by
  rw [← h.sb]
  exact (tableScan_claimIfFree v.vol).miss (s := s) h hv hf

/-- What `malloc` and `disk_read` of a data block do, the state stays as it is. -/
theorem mallocRead_keeps (h : Represents g s v) (hv : v.faults = noFaults) {b n : UInt32}
    (hb : b.toNat < g.totalBlocks) (hn : n.toNat = g.blockSize) :
    Spends callTape (· = s) (mallocRead b n) s (Exactly 1) := by
  intro a s' hrun
  obtain ⟨disk, bytes, hfile, -, hh, -⟩ := h.memory
  obtain ⟨-, hspend⟩ := mallocRead_spends (h.open hv) b n a s' hrun
  rw [mallocRead_ready (h.ready hv hfile hh) hb hn] at hrun
  obtain ⟨-, rfl⟩ := returned_inj hrun
  exact ⟨rfl, hspend⟩

/-- The content buffer is filled with one call a block. -/
theorem readContent_clear (h : Represents g s v) (hv : Steady g v) {x : Inode}
    (hx : Readable g v.vol x) (hclear : callTape.Clear (pieces x.size.toNat g.blockSize) f) :
    readContent v.vol.sb x (callTape.set f s) =
      some (v.vol.content g x, callTape.set (skip (pieces x.size.toNat g.blockSize) f) s) := by
  have hcount : (blocksUsed v.vol.sb x.size).toNat = pieces x.size.toNat g.blockSize := by
    have := hx.size_fits
    exact toNat_blocksUsed hx.layout (by omega)
  have hspend : Spends callTape (· = s) (readContent v.vol.sb x) s
      (Exactly (blocksUsed v.vol.sb x.size).toNat) := by
    refine readContent_spends (I := (· = s)) rfl fun b hb t ht => ?_
    rw [hcount, ← blocksOf_eq] at hb
    rw [ht]
    exact mallocRead_keeps h hv.faults (hx.bounds _ hb).2 hx.layout.blockSize
  obtain ⟨s', hrun, -⟩ := (readContent_runs hv.faults hx).exec h
  obtain ⟨rfl, n, hn, htape⟩ := hspend _ _ hrun
  obtain rfl : n = _ := hn
  rw [hcount] at htape
  exact htape f hclear

end MiniFs.Image

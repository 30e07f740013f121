import MiniFs.Image.Disturbed

/-! # Operations while system calls fail

The operations drop most error codes. An operation does what it does on a disk that
never fails, or is refused without a change, if the failing calls are reads of
look-ups that find what they would find anyway.
-/

set_option autoImplicit false

namespace MiniFs.Image
open MiniFs.Core Library Library.Exec Library.Chunks

/-! ## Failures that do no harm -/

section Quiet
variable (slot : ℕ → Option Inode) (sb : Superblock) (f : ℕ → Fault)

/-- If a scan finds an inode, it is the one a scan without failures finds, and the calls after it
turn out as `K` says. -/
def Finds (p : Inode → Bool) (K : Inode → (ℕ → Fault) → Prop) : Prop :=
  ∀ i x, firstRead slot sb.maxInodes.toNat f p = some i → slot i = some x →
    firstRead slot sb.maxInodes.toNat noFaults p = some i ∧ K x (skip (i + 1) f)

/-- If a scan finds nothing, there is nothing to find, and the calls after it turn out as `K`
says. -/
def Misses (p : Inode → Bool) (K : (ℕ → Fault) → Prop) : Prop :=
  firstRead slot sb.maxInodes.toNat f p = none →
    firstRead slot sb.maxInodes.toNat noFaults p = none ∧ K (skip sb.maxInodes.toNat f)

def heldBlocks (x : Inode) : ℕ := pieces x.size.toNat sb.blockSize.toNat

def wantedBlocks (len : ℕ) : ℕ := max 1 (pieces len sb.blockSize.toNat)

def Roomy (len : ℕ) : Prop :=
  wantedBlocks sb len ≤ maxDirectBlocks.toNat ∧ wantedBlocks sb len ≤ sb.freeBlocks.toNat

instance (len : ℕ) : Decidable (Roomy sb len) := inferInstanceAs (Decidable (_ ∧ _))

/-- The calls of a `_do_write` that frees `held` blocks and stores `len` bytes: the bitmap is
written for each block, and each new block. -/
def storeCalls (held len : ℕ) : ℕ :=
  held * sb.bitmapBlocks.toNat + wantedBlocks sb len * (sb.bitmapBlocks.toNat + 1)

/-- No failure is missed by the operation: the look-ups end as they do without failures, or in a
refusal, and all calls behind them succeed. -/
def Quiet : FileOp → Prop
  | .create name => name.strlen < maxFilenameLen →
    Misses slot sb f (matchesName name.bytes) fun f => sb.freeInodes ≠ 0 →
      Finds slot sb f (·.isUsed = 0) fun _ f => callTape.Clear 5 f
  | .write name data => Finds slot sb f (matchesName name.bytes) fun x f =>
    Roomy sb data.strlen → callTape.Clear (storeCalls sb (heldBlocks sb x) data.strlen + 3) f
  | .append name data => Finds slot sb f (matchesName name.bytes) fun x f =>
    callTape.Clear (heldBlocks sb x) f ∧ (Roomy sb (x.size.toNat + data.strlen) →
      callTape.Clear (storeCalls sb (heldBlocks sb x) (x.size.toNat + data.strlen) + 3)
        (skip (heldBlocks sb x) f))
  | .read name => Finds slot sb f (matchesName name.bytes) fun x f =>
    callTape.Clear (2 + heldBlocks sb x + 1) f
  | .rename oldName newName => newName.strlen < maxFilenameLen →
    Finds slot sb f (matchesName oldName.bytes) fun _ f =>
      Misses slot sb f (matchesName newName.bytes) fun f => callTape.Clear 2 f
  | .copy src dst => Finds slot sb f (matchesName src.bytes) fun y f =>
    Misses slot sb f (matchesName dst.bytes) fun f => sb.freeInodes ≠ 0 →
      callTape.Clear (heldBlocks sb y) f ∧
      firstRead slot sb.maxInodes.toNat (skip (heldBlocks sb y) f) (·.isUsed = 0) ≠ none ∧
      Finds slot sb (skip (heldBlocks sb y) f) (·.isUsed = 0) fun _ f =>
        callTape.Clear (5 + if y.size ≠ 0 ∧ Roomy sb y.size.toNat
          then storeCalls sb 0 y.size.toNat else 0) f
  | .truncate name newSize => Finds slot sb f (matchesName name.bytes) fun x f =>
    newSize ≤ x.size → callTape.Clear
      ((heldBlocks sb x - pieces newSize.toNat sb.blockSize.toNat) * sb.bitmapBlocks.toNat + 3) f
  | .chmod name _ => Finds slot sb f (matchesName name.bytes) fun _ f => callTape.Clear 2 f
  | .delete name => Finds slot sb f (matchesName name.bytes) fun x f =>
    callTape.Clear (heldBlocks sb x * sb.bitmapBlocks.toNat + 4) f

end Quiet

/-! ## Operations that tolerate the failures to come -/

/-- The program is refused, whatever the calls to come; it prints something and returns -1. -/
def Refuses (m : M Int) : Prop := ∃ msgs, ∀ s, m s = some (-1, s.say msgs)

/-- If the program returns without failures, it returns with the tape `f`: it is refused and
nothing but the output changes, or it does what it does without failures. -/
def Tolerated (m : M Int) (s : World) (f : ℕ → Fault) : Prop :=
  (∀ l, ∃ r u, m (s.say l) = some (r, u)) → ∃ r t, m (callTape.set f s) = some (r, t) ∧
    ((r = -1 ∧ ∃ msgs f', t = callTape.set f' (s.say msgs)) ∨
      ∃ errs u f', (∀ msg ∈ errs, msg = .diskReadPread) ∧ m (s.say errs) = some (r, u) ∧
        t = callTape.set f' u)

variable {g : Geometry} {s : World} {v : View} {f f' : ℕ → Fault} {m k : M Int}

theorem refuses_emit (msg : Message) : Refuses (do emit msg; pure (-1)) :=
  ⟨[msg], fun _ => rfl⟩

theorem Refuses.tolerated_of (h : Refuses k) (errs : List Message) (f' : ℕ → Fault)
    (hm : m (callTape.set f s) = k (callTape.set f' (s.say errs))) : Tolerated m s f := by
  obtain ⟨msgs, hk⟩ := h
  exact fun _ => ⟨-1, _, hm.trans (hk _), .inl ⟨rfl, errs ++ msgs, f', by rw [← World.say_say]; rfl⟩⟩

/-- What a part has printed and used up does not matter to the rest. -/
theorem Leads.tolerated {errs : List Message} (h : Leads s f m errs f' k)
    (hk : Tolerated k (s.say errs) f') : Tolerated m s f := by
  intro hret
  obtain ⟨r, t, hrun, hend⟩ := hk fun l => by
    obtain ⟨r, u, hru⟩ := hret (errs ++ l)
    rw [h.calm] at hru
    exact ⟨r, u, by rw [World.say_say, hru]⟩
  refine ⟨r, t, h.disturbed.trans hrun, ?_⟩
  rcases hend with ⟨hr, msgs, f2, ht⟩ | ⟨errs', u, f2, herrs, hu, ht⟩
  · exact .inl ⟨hr, errs ++ msgs, f2, by rw [ht, World.say_say]⟩
  · refine .inr ⟨errs ++ errs', u, f2, fun msg hmsg => ?_, ?_, ht⟩
    · exact (List.mem_append.mp hmsg).elim (h.errors msg) (herrs msg)
    · rw [h.calm, ← World.say_say, hu]

/-- A rest none of whose calls fails. -/
theorem tolerated_of_spends {n : ℕ} (h : Spends callTape (Open g) m s (AtMost n))
    (hclear : callTape.Clear n f) : Tolerated m s f := by
  intro hret
  obtain ⟨r, u, hu⟩ := hret []
  rw [World.say_nil] at hu
  obtain ⟨-, n', hn, hrun⟩ := h r u hu
  refine ⟨r, _, hrun f (hclear.mono hn), .inr ⟨[], u, skip n' f, ?_, ?_, rfl⟩⟩
  · exact fun _ hmsg => absurd hmsg List.not_mem_nil
  · rw [World.say_nil, hu]

/-! ## Scans and reads -/

abbrev Volume.slot (vol : Volume) (i : ℕ) : Option Inode := vol.inodes[i]?

section
variable {name : CStr} {x : Inode}

theorem foundAt_of_firstRead {i : ℕ}
    (hf : v.vol.firstRead noFaults (matchesName name.bytes) = some i)
    (hx : v.vol.inodes[i]? = some x) : FoundAt v.vol name.bytes i x := by
  obtain ⟨-, -, ⟨y, hy, hp⟩, hbefore⟩ := firstRead_eq_some hf
  obtain rfl := Option.some.inj (hx.symm.trans hy)
  have hbefore' (j : ℕ) (z : Inode) (hj : j < i) (hz : v.vol.inodes[j]? = some z) :
      matchesName name.bytes z = false := hbefore j hj rfl z hz
  obtain ⟨hi, rfl⟩ := List.getElem?_eq_some_iff.mp hx
  have hlook : v.vol.lookup name.bytes = some v.vol.inodes[i] := by
    refine List.find?_eq_some_iff_getElem.mpr ⟨hp, i, hi, rfl, fun j hj => ?_⟩
    rw [hbefore' j _ hj (List.getElem?_eq_getElem _)]
    rfl
  rw [matchesName, decide_eq_true_eq] at hp
  exact ⟨hlook, hx, hp.1, hp.2, hbefore'⟩

theorem Finds.tolerated {K : Inode → (ℕ → Fault) → Prop} {k : Option Inode → M Int}
    (hq : Finds v.vol.slot v.vol.sb f (matchesName name.bytes) K) (h : Represents g s v)
    (hv : Steady g v) (hmiss : Refuses (k none))
    (hhit : ∀ i x errs f', FoundAt v.vol name.bytes i x → K x f' →
      Tolerated (k (some x)) (s.say errs) f') :
    Tolerated (inodeFindByName name >>= k) s f := by
  cases hf : v.vol.firstRead f (matchesName name.bytes) with
  | none =>
    refine hmiss.tolerated_of (readErrors f v.vol.sb.maxInodes.toNat)
      (skip v.vol.sb.maxInodes.toNat f) ?_
    rw [bind_apply, inodeFindByName_miss h hv hf]
    rfl
  | some i =>
    obtain ⟨-, -, ⟨x, hx, hp⟩, -⟩ := firstRead_eq_some hf
    obtain ⟨hcalm, hK⟩ := hq i x hf hx
    have hlead : Leads s f (inodeFindByName name >>= k) (readErrors f (i + 1)) (skip (i + 1) f)
        (k (some x)) := by
      refine .of_reads h hv ?_ fun l => ?_
      · rw [bind_apply, inodeFindByName_hit h hv hf hx, Option.bind_some]
      · rw [bind_apply, inodeFindByName_hit (h.say l) (hv.say l) hcalm hx, Option.bind_some]
    exact hlead.tolerated (hhit i x _ _ (foundAt_of_firstRead hcalm hx) hK)

theorem Misses.tolerated {K : (ℕ → Fault) → Prop} {k : Option Inode → M Int}
    (hq : Misses v.vol.slot v.vol.sb f (matchesName name.bytes) K) (h : Represents g s v)
    (hv : Steady g v) (hhit : ∀ x, Refuses (k (some x)))
    (hmiss : ∀ errs f', K f' → Tolerated (k none) (s.say errs) f') :
    Tolerated (inodeFindByName name >>= k) s f := by
  cases hf : v.vol.firstRead f (matchesName name.bytes) with
  | none =>
    obtain ⟨hcalm, hK⟩ := hq hf
    have hlead : Leads s f (inodeFindByName name >>= k)
        (readErrors f v.vol.sb.maxInodes.toNat) (skip v.vol.sb.maxInodes.toNat f) (k none) := by
      refine .of_reads h hv ?_ fun l => ?_
      · rw [bind_apply, inodeFindByName_miss h hv hf, Option.bind_some]
      · rw [bind_apply, inodeFindByName_miss (h.say l) (hv.say l) hcalm, Option.bind_some]
        rfl
    exact hlead.tolerated (hmiss _ _ hK)
  | some i =>
    obtain ⟨-, -, ⟨x, hx, hp⟩, -⟩ := firstRead_eq_some hf
    refine (hhit x).tolerated_of (readErrors f (i + 1)) (skip (i + 1) f) ?_
    rw [bind_apply, inodeFindByName_hit h hv hf hx]
    rfl

theorem Finds.tolerated_allocate {K : Inode → (ℕ → Fault) → Prop} {k : Option Inode → M Int}
    (hq : Finds v.vol.slot v.vol.sb f (·.isUsed = 0) K) (h : Represents g s v)
    (hv : Steady g v) (hmiss : v.vol.firstRead f (·.isUsed = 0) = none → Refuses (k none))
    (hhit : ∀ (i : ℕ) x errs f', v.vol.inodes[i]? = some x → K x f' →
      Tolerated (claimSlot i >>= fun y => k (some y)) (s.say errs) f') :
    Tolerated (inodeAllocate >>= k) s f := by
  cases hf : v.vol.firstRead f (·.isUsed = 0) with
  | none =>
    refine (hmiss hf).tolerated_of (readErrors f v.vol.sb.maxInodes.toNat)
      (skip v.vol.sb.maxInodes.toNat f) ?_
    rw [bind_apply, inodeAllocate_miss h hv hf]
    rfl
  | some i =>
    obtain ⟨-, -, ⟨x, hx, -⟩, -⟩ := firstRead_eq_some hf
    obtain ⟨hcalm, hK⟩ := hq i x hf hx
    have hlead : Leads s f (inodeAllocate >>= k) (readErrors f (i + 1)) (skip (i + 1) f)
        (claimSlot i >>= fun y => k (some y)) := by
      refine .of_reads h hv ?_ fun l => ?_
      · rw [bind_apply, inodeAllocate_hit h hv hf hx, bind_apply, bind_apply, Option.bind_assoc]
        rfl
      · rw [bind_apply, inodeAllocate_hit (h.say l) (hv.say l) hcalm hx, bind_apply, bind_apply,
          Option.bind_assoc]
        rfl
    exact hlead.tolerated (hhit i x _ _ hx hK)

theorem tolerated_readContent {k : List UInt8 → M Int} (h : Represents g s v) (hv : Steady g v)
    (hx : Readable g v.vol x) (hclear : callTape.Clear (heldBlocks v.vol.sb x) f)
    (hk : Tolerated (k (v.vol.content g x)) s (skip (heldBlocks v.vol.sb x) f)) :
    Tolerated (readContent v.vol.sb x >>= k) s f := by
  rw [heldBlocks, hx.layout.blockSize] at hclear hk
  have hlead : Leads s f (readContent v.vol.sb x >>= k) []
      (skip (pieces x.size.toNat g.blockSize) f) (k (v.vol.content g x)) := by
    refine ⟨fun _ hmsg => absurd hmsg List.not_mem_nil, ?_, fun l => ?_⟩
    · rw [bind_apply, readContent_clear h hv hx hclear, Option.bind_some, World.say_nil]
    · have hl := (h.say ([] ++ l)).faults.trans hv.faults
      have hcalm := readContent_clear (f := noFaults) (h.say ([] ++ l)) (hv.say _) hx fun _ _ => rfl
      have hskip : skip (pieces x.size.toNat g.blockSize) noFaults = noFaults := rfl
      rw [hskip, set_noFaults hl] at hcalm
      change readContent v.vol.sb x _ = some (v.vol.content g x, _) at hcalm
      rw [bind_apply, hcalm, Option.bind_some]
  exact hlead.tolerated (by rwa [World.say_nil])

end

theorem tolerated_getSb {k : Superblock → M Int} (hk : Tolerated (k s.sb) s f) :
    Tolerated (getSb >>= k) s f := hk

theorem Refuses.tolerated (h : Refuses m) : Tolerated m s f :=
  h.tolerated_of [] f (by rw [World.say_nil])

/-! ## The rest of an operation -/

section Rests
variable {sb : Superblock} {x : Inode} {len : UInt32}

theorem toNat_countNeeded (hg : g.Describes sb) (hlen : len.toNat + g.blockSize ≤ 2 ^ 32) :
    (countNeeded sb len).toNat = wantedBlocks sb len.toNat := by
  rw [countNeeded, toNat_needed hg hlen, blocksNeeded, wantedBlocks, hg.blockSize]

theorem roomy_iff (hg : g.Describes sb) (hlen : len.toNat + g.blockSize ≤ 2 ^ 32) :
    countNeeded sb len ≤ maxDirectBlocks ∧ countNeeded sb len ≤ sb.freeBlocks ↔
      Roomy sb len.toNat := by
  rw [Roomy, UInt32.le_iff_toNat_le, UInt32.le_iff_toNat_le, toNat_countNeeded hg hlen]

theorem toNat_heldBlocks (hg : g.Describes sb) (hx : x.size.toNat + g.blockSize ≤ 2 ^ 32) :
    (blocksUsed sb x.size).toNat = heldBlocks sb x := by
  rw [toNat_blocksUsed hg hx, heldBlocks, hg.blockSize]

theorem clear_ite {p : Prop} [Decidable p] {n : ℕ} (h : p → callTape.Clear n f) :
    callTape.Clear (if p then n else 0) f := by
  split_ifs with hp
  · exact h hp
  · exact fun _ hk => absurd hk (Nat.not_lt_zero _)

/-- A `_do_write` and what follows it. -/
theorem store_spends (h : Open g s) (now : UInt64) (data : List UInt8)
    (hx : x.size.toNat + g.blockSize ≤ 2 ^ 32) (hlen : len.toNat + g.blockSize ≤ 2 ^ 32)
    {k : Option Inode → M Int} {i j : ℕ} (hij : i ≤ j)
    (hnone : ∀ t, Open g t → Spends callTape (Open g) (k none) t (AtMost i))
    (hsome : ∀ y t, Open g t → Spends callTape (Open g) (k (some y)) t (AtMost j)) :
    Spends callTape (Open g) (doWrite now x data len >>= k) s (AtMost
      (if Roomy s.sb len.toNat then storeCalls s.sb (heldBlocks s.sb x) len.toNat + j else i)) := by
  split_ifs with hroom
  · rw [storeCalls, ← toNat_heldBlocks h.layout hx, ← toNat_countNeeded h.layout hlen,
      h.layout.bitmapBlocks]
    refine (doWrite_spends h).bind_atMost fun r t ht _ => ?_
    cases r with
    | none => exact (hnone t ht).mono hij
    | some y => exact hsome y t ht
  · rw [← roomy_iff h.layout hlen] at hroom
    refine (doWrite_refused h hroom).bind fun r n t hn ht _ => ?_
    obtain ⟨rfl, rfl⟩ := hn
    exact (hnone t ht).weaken fun _ n' hn' => by rwa [AtMost, Nat.zero_add]

end Rests

/-! ## The operations -/

section Operations
variable {now : UInt64} {name : CStr}

theorem Steady.size_le (hv : Steady g v) {i : ℕ} {x : Inode} (hx : v.vol.inodes[i]? = some x)
    (hlive : x.isUsed = 1) : x.size.toNat + g.blockSize ≤ 2 ^ 32 := by
  have := hv.sound.size_fits hx hlive
  omega

theorem fsChmod_tolerated (h : Represents g s v) (hv : Steady g v) {mode : UInt16}
    (hq : Quiet v.vol.slot v.vol.sb f (.chmod name mode)) :
    Tolerated (fsChmod now name mode) s f := by
  refine Finds.tolerated hq h hv (refuses_emit _) fun i x errs f' _ hclear => ?_
  refine tolerated_of_spends (g := g) (n := 2 + 0) ?_ hclear
  refine (inodeWrite_spends ((h.say errs).open hv.faults) _ _).bind_atMost fun _ t ht _ => ?_
  exact emit_spends ht _ fun u hu => .pure hu (Nat.le_refl 0)

theorem fsDelete_tolerated (h : Represents g s v) (hv : Steady g v)
    (hq : Quiet v.vol.slot v.vol.sb f (.delete name)) : Tolerated (fsDelete name) s f := by
  refine Finds.tolerated hq h hv (refuses_emit _) fun i x errs f' hat hclear => ?_
  have hopen := (h.say errs).open hv.faults
  refine tolerated_of_spends (g := g) ?_ hclear
  refine .ask_bind (fun _ => rfl) ?_
  rw [← toNat_heldBlocks h.layout (hv.size_le hat.slot hat.live), h.layout.bitmapBlocks, ← h.sb]
  refine (freeBlocksLoop_spends hopen x _ 0).bind_atMost fun _ t ht _ => ?_
  refine (inodeFree_spends ht x.id).bind_atMost (l := 1) fun _ u hu _ => ?_
  refine ((diskWriteSb_spends hu).atMost (Nat.le_refl 1)).bind_atMost (l := 0) fun _ z hz _ => ?_
  exact emit_spends hz _ fun _ hy => .pure hy (Nat.le_refl 0)

theorem fsTruncateFile_tolerated (h : Represents g s v) (hv : Steady g v) {newSize : UInt32}
    (hq : Quiet v.vol.slot v.vol.sb f (.truncate name newSize)) :
    Tolerated (fsTruncateFile now name newSize) s f := by
  rw [Quiet] at hq
  refine Finds.tolerated hq h hv (refuses_emit _) fun i x errs f' hat hclear => ?_
  dsimp only
  by_cases hlt : newSize > x.size
  · rw [if_pos hlt]
    exact (refuses_emit _).tolerated
  rw [if_neg hlt]
  have hle := UInt32.not_lt.mp hlt
  have hsize := hv.size_le hat.slot hat.live
  have hnew : newSize.toNat + g.blockSize ≤ 2 ^ 32 := by
    have := UInt32.le_iff_toNat_le.mp hle
    omega
  refine tolerated_of_spends (g := g) ?_ (hclear hle)
  refine .ask_bind (fun _ => rfl) ?_
  rw [← toNat_heldBlocks h.layout hsize, h.layout.bitmapBlocks, h.layout.blockSize,
    ← toNat_blocksUsed h.layout hnew, ← h.sb]
  exact (freeBlocksLoop_spends ((h.say errs).open hv.faults) x _ _).bind_atMost fun _ t ht _ =>
    finish_spends ht _ _ _

theorem fsRead_tolerated (h : Represents g s v) (hv : Steady g v)
    (hq : Quiet v.vol.slot v.vol.sb f (.read name)) : Tolerated (fsRead now name) s f := by
  refine Finds.tolerated hq h hv (refuses_emit _) fun i x errs f' hat hclear => ?_
  have hsize := hv.size_le hat.slot hat.live
  refine tolerated_of_spends (g := g) ?_ hclear
  rw [Nat.add_assoc]
  refine (inodeWrite_spends ((h.say errs).open hv.faults) _ _).bind_atMost fun _ t ht _ => ?_
  dsimp only
  split_ifs with h0
  · refine emit_spends ht _ fun u hu => setSb_spends hu (fun _ hd => { hd with }) fun z hz => ?_
    exact ((diskWriteSb_spends hz).atMost (Nat.le_add_left 1 _)).bind_atMost (l := 0) fun _ y hy _ =>
      .pure hy (Nat.le_refl 0)
  · have hcount : (blockCount t.sb x.size).toNat = heldBlocks v.vol.sb x := by
      rw [toNat_blockCount ht.layout hsize, heldBlocks, h.layout.blockSize]
    refine .ask_bind (fun _ => rfl) ?_
    rw [hcount]
    refine ((readLoop_spends ht fun b _ z hz => mallocRead_spends hz b _).atMost
      (Nat.le_refl _)).bind_atMost fun bytes u hu _ => ?_
    refine emit_spends hu _ fun u1 h1 => emit_spends h1 _ fun u2 h2 => ?_
    refine setSb_spends h2 (fun _ hd => { hd with }) fun z hz => ?_
    exact ((diskWriteSb_spends hz).atMost (Nat.le_refl 1)).bind_atMost (l := 0) fun _ y hy _ =>
      .pure hy (Nat.le_refl 0)

theorem fsRename_tolerated (h : Represents g s v) (hv : Steady g v) {oldName newName : CStr}
    (hq : Quiet v.vol.slot v.vol.sb f (.rename oldName newName)) :
    Tolerated (fsRename now oldName newName) s f := by
  unfold fsRename
  by_cases hlen : maxFilenameLen ≤ newName.strlen
  · rw [if_pos hlen]
    exact (refuses_emit _).tolerated
  rw [if_neg hlen]
  refine Finds.tolerated (hq (not_le.mp hlen)) h hv (refuses_emit _)
    fun i x errs f1 _ hq1 => ?_
  refine Misses.tolerated (v := v.say errs) hq1 (h.say errs) (hv.say errs) (fun _ => refuses_emit _)
    fun errs' f2 hclear => ?_
  refine tolerated_of_spends (g := g) (n := 2 + 0) ?_ hclear
  refine (inodeWrite_spends (((h.say errs).say errs').open hv.faults) _ _).bind_atMost ?_
  exact fun _ t ht _ => emit_spends ht _ fun u hu => .pure hu (Nat.le_refl 0)

theorem claimSlot_spends (h : Open g s) (i : ℕ) :
    Spends callTape (Open g) (claimSlot i) s (AtMost 2) :=
  setSb_spends h (fun _ hd => hd.freeInodes _) fun _ ht =>
    (inodeWrite_spends ht _ _).bind_atMost (l := 0) fun _ _ hu _ => .pure hu (Nat.le_refl 0)

theorem fsCreate_tolerated (h : Represents g s v) (hv : Steady g v)
    (hq : Quiet v.vol.slot v.vol.sb f (.create name)) : Tolerated (fsCreate now name) s f := by
  unfold fsCreate
  by_cases hlen : maxFilenameLen ≤ name.strlen
  · rw [if_pos hlen]
    exact (refuses_emit _).tolerated
  rw [if_neg hlen]
  refine Misses.tolerated (hq (not_le.mp hlen)) h hv (fun _ => refuses_emit _)
    fun errs f1 hq1 => ?_
  refine tolerated_getSb ?_
  have hsb : (s.say errs).sb = v.vol.sb := h.sb
  rw [hsb]
  by_cases hno : v.vol.sb.freeInodes = 0
  · simp only [hno, if_true]
    exact (refuses_emit _).tolerated
  simp only [hno, if_false]
  refine Finds.tolerated_allocate (v := v.say errs) (hq1 hno) (h.say errs) (hv.say errs)
    (fun _ => refuses_emit _) fun i x errs' f2 _ hclear => ?_
  refine tolerated_of_spends (g := g) ?_ hclear
  exact (claimSlot_spends (((h.say errs).say errs').open hv.faults) i).bind_atMost
    fun _ _ ht _ => finish_spends ht _ _ _

theorem fsWrite_tolerated (h : Represents g s v) (hv : Steady g v) {data : CStr}
    (hfit : data.strlen + g.blockSize ≤ 2 ^ 32)
    (hq : Quiet v.vol.slot v.vol.sb f (.write name data)) :
    Tolerated (fsWrite now name data) s f := by
  rw [Quiet] at hq
  refine Finds.tolerated hq h hv (refuses_emit _) fun i x errs f' hat hclear => ?_
  have hpos := g.blockSize_pos
  have hlen : (UInt32.ofNat data.strlen).toNat = data.strlen :=
    toNat_word (by omega)
  have hsb : (s.say errs).sb = v.vol.sb := h.sb
  refine tolerated_of_spends (g := g) ?_ (clear_ite hclear)
  refine (store_spends ((h.say errs).open hv.faults) now data.bytes
    (hv.size_le hat.slot hat.live) (by rw [hlen]; exact hfit) (Nat.zero_le 3)
    (fun t ht => show Spends _ _ (pure (-1)) t _ from .pure ht (Nat.le_refl 0))
    fun y _ ht => finish_spends ht _ _ _).mono ?_
  rw [hlen, hsb]

theorem fsAppend_tolerated (h : Represents g s v) (hv : Steady g v) {data : CStr}
    (hfit : Fits g v.vol (.append name data))
    (hq : Quiet v.vol.slot v.vol.sb f (.append name data)) :
    Tolerated (fsAppend now name data) s f := by
  rw [Quiet] at hq
  refine Finds.tolerated hq h hv (refuses_emit _) fun i x errs f' hat hclear => ?_
  obtain ⟨hcontent, hroom⟩ := hclear
  have hpos := g.blockSize_pos
  have hfit := hfit (x.size.toNat + data.strlen) (by rw [storedLength, hat.lookup]; rfl)
  have hlen : (UInt32.ofNat data.strlen).toNat = data.strlen :=
    toNat_word (by omega)
  have hnew : (x.size + UInt32.ofNat data.strlen).toNat = x.size.toNat + data.strlen := by
    rw [UInt32.toNat_add, hlen, Nat.mod_eq_of_lt (by omega)]
  have hsb : (s.say errs).sb = v.vol.sb := h.sb
  refine tolerated_getSb ?_
  rw [hsb]
  refine tolerated_readContent (v := v.say errs) (h.say errs) (hv.say errs)
    (hv.sound.readable hat.slot hat.live) hcontent ?_
  refine tolerated_of_spends (g := g) (.require_bind fun _ => ?_) (clear_ite hroom)
  refine (store_spends ((h.say errs).open hv.faults) now
    (v.vol.content g x ++ data.bytes.take (UInt32.ofNat data.strlen).toNat)
    (hv.size_le hat.slot hat.live) (by rw [hnew]; exact hfit) (Nat.zero_le 3)
    (fun t ht => show Spends _ _ (pure (-1)) t _ from .pure ht (Nat.le_refl 0))
    fun y _ ht => finish_spends ht _ _ _).mono ?_
  rw [hnew, hsb]

theorem fsCopy_tolerated (h : Represents g s v) (hv : Steady g v) {src dst : CStr}
    (hq : Quiet v.vol.slot v.vol.sb f (.copy src dst)) :
    Tolerated (fsCopy now src dst) s f := by
  rw [Quiet] at hq
  refine Finds.tolerated hq h hv (refuses_emit _) fun i y errs f' hat hq1 => ?_
  refine Misses.tolerated (v := v.say errs) hq1 (h.say errs) (hv.say errs)
    (fun _ => refuses_emit _) fun errs' f2 hq2 => ?_
  have h2 := (h.say errs).say errs'
  refine tolerated_getSb ?_
  have hsb : ((s.say errs).say errs').sb = v.vol.sb := h.sb
  rw [hsb]
  by_cases hno : v.vol.sb.freeInodes = 0
  · simp only [hno, if_true]
    exact (refuses_emit _).tolerated
  simp only [hno, if_false]
  obtain ⟨hcontent, hfree, hq3⟩ := hq2 hno
  refine tolerated_getSb ?_
  rw [hsb]
  refine tolerated_readContent (v := (v.say errs).say errs') h2 ((hv.say errs).say errs')
    (hv.sound.readable hat.slot hat.live) hcontent ?_
  refine Finds.tolerated_allocate (v := (v.say errs).say errs') hq3 h2 ((hv.say errs).say errs')
    (fun hnone => absurd hnone hfree) fun k x errs3 f3 hx3 hclear => ?_
  have h3 := h2.say errs3
  have hopen := h3.open hv.faults
  refine tolerated_of_spends (g := g) ?_ hclear
  rw [show 5 = 2 + 3 from rfl, Nat.add_assoc]
  refine (claimSlot_spends hopen k).bind_atMost fun z t ht hclaim => ?_
  obtain ⟨t', hrun, ht'⟩ := (claimSlot_runs (v := ((v.say errs).say errs').say errs3) hv.sound
    hv.faults hx3).exec h3
  obtain ⟨rfl, rfl⟩ := run_unique hclaim hrun
  change Spends _ _ (pure (Inode.fresh k) >>= _) _ _
  rw [pure_bind]
  have hsbt : t.sb = { v.vol.sb with freeInodes := v.vol.sb.freeInodes - 1 } := ht'.sb
  have hsize := hv.size_le hat.slot hat.live
  by_cases hzero : y.size > 0
  · have hne : y.size ≠ 0 := UInt32.pos_iff_ne_zero.mp hzero
    simp only [hzero, if_true]
    have hsmall : (newInode now k dst y.mode).size.toNat + g.blockSize ≤ 2 ^ 32 := by
      have := g.blockSize_lt
      change 0 + _ ≤ _
      omega
    refine (store_spends ht now _ hsmall hsize (Nat.le_refl 3) (fun u hu => ?_)
      fun z u hu => finish_spends hu _ _ _).mono ?_
    · exact (inodeFree_spends hu _).bind_atMost (l := 0) fun _ _ hw _ => .pure hw (Nat.le_refl 0)
    · have hheld : heldBlocks t.sb (newInode now k dst y.mode) = 0 := pieces_zero (by
        rw [ht.layout.blockSize]
        exact g.blockSize_pos)
      have hroomy : Roomy t.sb y.size.toNat ↔ Roomy v.vol.sb y.size.toNat := by
        rw [hsbt]
        exact Iff.rfl
      have hstore : storeCalls t.sb 0 y.size.toNat = storeCalls v.vol.sb 0 y.size.toNat := by
        rw [hsbt]
        rfl
      simp only [hheld, hroomy, hstore, hne, ne_eq, not_false_eq_true, true_and]
      split_ifs <;> omega
  · simp only [hzero, if_false]
    exact (finish_spends ht _ _ _).mono (Nat.le_add_right 3 _)

/-- Every operation tolerates failures that it does not miss. -/
theorem runOp_tolerated (h : Represents g s v) (hv : Steady g v) {op : FileOp}
    (hfit : Fits g v.vol op) (hq : Quiet v.vol.slot v.vol.sb f op) :
    Tolerated (runOp now op) s f := by
  cases op with
  | create name => exact fsCreate_tolerated h hv hq
  | write name data => exact fsWrite_tolerated h hv (hfit _ rfl) hq
  | append name data => exact fsAppend_tolerated h hv hfit hq
  | read name => exact fsRead_tolerated h hv hq
  | rename oldName newName => exact fsRename_tolerated h hv hq
  | copy src dst => exact fsCopy_tolerated h hv hq
  | truncate name newSize => exact fsTruncateFile_tolerated h hv hq
  | chmod name mode => exact fsChmod_tolerated h hv hq
  | delete name => exact fsDelete_tolerated h hv hq

end Operations

end MiniFs.Image

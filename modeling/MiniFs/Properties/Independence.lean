import MiniFs.Properties.Refinement
import MiniFs.Properties.Names
import MiniFs.Spec.Named

/-! # Commands on other names do not interfere

Split the names into two sides, with no command that mentions names of both. What the
names of one side show after a run is decided by what they showed before and by the
successful commands about them, in their order. It does not matter how commands about
the other side come in between, on which disk the run takes place, which inodes and
blocks were free, or when the processes were stopped and started.
-/

set_option autoImplicit false

namespace MiniFs.Properties
open MiniFs.Core MiniFs.Image MiniFs.Spec Library Library.Exec Library.Footprint

/-- A command line can hold the strings, the name a copy makes fits its field, and the names are
all on one side. -/
structure Sided (mine : List UInt8 → Bool) (c : Command) : Prop where
  args : c.ArgsBelow (2 ^ 17)
  copyFits : ∀ d, c = .file d → CopyFits d.op
  side : ∀ d, c = .file d → (∀ n ∈ names d.op, mine n = true) ∨ ∀ n ∈ names d.op, mine n = false

def doneOn (mine : List UInt8 → Bool) (steps : List (Interruption × Command))
    (answers : List (Int × Int)) : List FileCall :=
  (done steps answers).filter fun c => (names c.op).all mine

variable {mine : List UInt8 → Bool} {steps : List (Interruption × Command)}

theorem mem_of_mem_done {answers : List (Int × Int)} {c : FileCall} (h : c ∈ done steps answers) :
    ∃ p ∈ steps, p.2 = .file c := by
  obtain ⟨⟨⟨x, d⟩, m, r⟩, hmem, hc⟩ := List.mem_filterMap.mp h
  refine ⟨(x, d), (List.of_mem_zip hmem).1, ?_⟩
  cases d with
  | file d =>
    dsimp only at hc
    split_ifs at hc
    rw [Option.some.inj hc]
  | _ => exact nomatch hc

/-- What one side shows after a run, by the work of its own commands. -/
theorem run_shown_side {w u : World} {answers : List (Int × Int)} (hw : Mounted w)
    (hd : w.flat.Distinct) (hsteps : ∀ p ∈ steps, Sided mine p.2)
    (hrun : runList Core.runResumed steps w = some (answers, u)) {s : Shown}
    (hs : ∀ n, mine n = true → w.flat.shown n = s n) : ∀ n, mine n = true →
      u.flat.shown n = runAll (fun c => effect c.now c.op) (doneOn mine steps answers) s n := by
  obtain ⟨u', hrun', -, hflat⟩ :=
    Follows.list (fun p hp => runResumed_follows (hsteps p hp).args) w hw
  obtain ⟨rfl, rfl⟩ := run_unique hrun hrun'
  have hshows := runEach_shows hd steps fun p hp c hc => (hsteps p hp).copyFits c hc
  intro n hn
  rw [hflat, hshows.shown]
  have hwithin (c : FileCall) : Within {n | n ∈ names c.op} (effect c.now c.op) :=
    effect_within c.now c.op
  refine runAll_filter (A := {n | mine n = true}) _ (fun c _ => hwithin c) ?_ ?_ hs hn
  · intro c _ hall
    exact fun m hm => List.all_eq_true.mp hall m hm
  · intro c hc hall
    obtain ⟨p, hp, hpc⟩ := mem_of_mem_done hc
    obtain hin | hout := (hsteps p hp).side c hpc
    · rw [List.all_eq_true.mpr hin] at hall
      exact nomatch hall
    · intro m hm hmine
      exact absurd ((hout m hm).symm.trans hmine) Bool.false_ne_true

/-- If two runs, on any disks, start with the same files under the names of one side, and the same
commands about these succeed in the same order, they end with the same files under them. -/
theorem sides_independent {w1 w2 u1 u2 : World} (h1 : Mounted w1) (h2 : Mounted w2)
    (hd1 : w1.flat.Distinct) (hd2 : w2.flat.Distinct)
    (hstart : ∀ n, mine n = true → w1.flat.shown n = w2.flat.shown n)
    {steps1 steps2 : List (Interruption × Command)} (hs1 : ∀ p ∈ steps1, Sided mine p.2)
    (hs2 : ∀ p ∈ steps2, Sided mine p.2) {answers1 answers2 : List (Int × Int)}
    (hrun1 : runList Core.runResumed steps1 w1 = some (answers1, u1))
    (hrun2 : runList Core.runResumed steps2 w2 = some (answers2, u2))
    (hsame : doneOn mine steps1 answers1 = doneOn mine steps2 answers2) :
    ∀ n, mine n = true → u1.flat.shown n = u2.flat.shown n := by
  intro n hn
  have hshown1 := run_shown_side h1 hd1 hs1 hrun1 hstart n hn
  have hshown2 := run_shown_side h2 hd2 hs2 hrun2 (fun _ _ => rfl) n hn
  rw [hshown1, hshown2, hsame]

def ofUser (n : List UInt8) : Bool := n.head? = some 112

def ownName : CStr := ⟨[112, 120], by decide⟩

def otherName : CStr := ⟨[113, 120], by decide⟩

def alone : List (Interruption × Command) := [(.none, .file ⟨.create ownName, 3⟩)]

def besideOther : List (Interruption × Command) :=
  [(.none, .file ⟨.create otherName, 1⟩), (.remount, .file ⟨.delete otherName, 2⟩),
    (.none, .file ⟨.create ownName, 3⟩)]

theorem sided_name {mine : List UInt8 → Bool} {name : CStr} {c : FileCall}
    (hargs : c.op.args = [name]) (hnames : names c.op = [name.bytes]) (hcopy : CopyFits c.op)
    (hlen : name.strlen < 2 ^ 17) : Sided mine (.file c) where
  args := by
    intro s hs
    rw [hargs, List.mem_singleton] at hs
    exact hs ▸ hlen
  copyFits _ h := Command.file.inj h ▸ hcopy
  side _ h := by
    rw [← Command.file.inj h, hnames]
    simp

theorem sides_independent_create : ∃ w answers1 answers2 u1 u2, Mounted w ∧
    runList Core.runResumed besideOther w = some (answers1, u1) ∧
    runList Core.runResumed alone w = some (answers2, u2) ∧
    ∀ n, ofUser n = true → u1.flat.shown n = u2.flat.shown n := by
  obtain ⟨w, hw, hflat⟩ := exists_formatted formattable_eight
  have hd : w.flat.Distinct := distinct_empty (congrArg Flat.files hflat)
  have hs1 : ∀ p ∈ besideOther, Sided ofUser p.2 := by
    simp only [besideOther, List.forall_mem_cons]
    exact ⟨sided_name rfl rfl trivial (by decide), sided_name rfl rfl trivial (by decide),
      sided_name rfl rfl trivial (by decide), fun _ h => nomatch h⟩
  have hs2 : ∀ p ∈ alone, Sided ofUser p.2 := by
    simp only [alone, List.forall_mem_cons]
    exact ⟨sided_name rfl rfl trivial (by decide), fun _ h => nomatch h⟩
  obtain ⟨u1, hrun1, -⟩ := Follows.list (fun p hp => runResumed_follows (hs1 p hp).args) w hw
  obtain ⟨u2, hrun2, -⟩ := Follows.list (fun p hp => runResumed_follows (hs2 p hp).args) w hw
  refine ⟨w, _, _, u1, u2, hw, hrun1, hrun2,
    sides_independent hw hw hd hd (fun _ _ => rfl) hs1 hs2 hrun1 hrun2 ?_⟩
  rw [hflat]
  rfl

end MiniFs.Properties

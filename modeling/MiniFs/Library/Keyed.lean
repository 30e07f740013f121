import Mathlib.Data.Nat.Basic
import Mathlib.Logic.Function.Basic
import Mathlib.Tactic.SplitIfs

/-! # Records found by their key

A list of records, some of which have a key; the others are free slots. As long
as no two records have the same key, a look-up is a partial function that a
change of one record changes at one or two points. A table shows a part of the
record under each key.
-/

set_option autoImplicit false

namespace MiniFs.Library.Keyed

variable {α β κ : Type} (key : α → Option κ)

def lookup [DecidableEq κ] (l : List α) (k : κ) : Option α := l.find? fun x => key x = some k

/-- What `f` makes of the record under each key. -/
def table [DecidableEq κ] (f : α → β) (l : List α) (k : κ) : Option β :=
  (lookup key l k).map f

def Unique (l : List α) : Prop :=
  ∀ (i j : ℕ) (x y : α) (k : κ), l[i]? = some x → l[j]? = some y → key x = some k →
    key y = some k → i = j

variable {key} {l : List α} {i : ℕ} {x x' : α} {k k' : κ}

theorem mem_set_iff (hi : l[i]? = some x) {y : α} :
    y ∈ l.set i x' ↔ y = x' ∨ ∃ j ≠ i, l[j]? = some y := by
  have hlt := (List.getElem?_eq_some_iff.mp hi).1
  constructor
  · intro hy
    obtain ⟨j, hj⟩ := List.getElem?_of_mem hy
    by_cases hji : j = i
    · rw [hji, List.getElem?_set_self hlt] at hj
      exact .inl (Option.some.inj hj).symm
    · rw [List.getElem?_set_ne (Ne.symm hji)] at hj
      exact .inr ⟨j, hji, hj⟩
  · rintro (rfl | ⟨j, hji, hj⟩)
    · exact List.mem_of_getElem? (List.getElem?_set_self hlt)
    · exact List.mem_of_getElem? (i := j) (by rw [List.getElem?_set_ne (Ne.symm hji), hj])

namespace Unique

/-- The records left when slot `i` is disregarded. -/
theorem mem_other_iff (hu : Unique key l) (hi : l[i]? = some x) {y : α} (hy : key y = some k) :
    (∃ j ≠ i, l[j]? = some y) ↔ key x ≠ some k ∧ y ∈ l := by
  constructor
  · rintro ⟨j, hji, hj⟩
    exact ⟨fun hx => hji (hu j i y x k hj hi hy hx), List.mem_of_getElem? hj⟩
  · rintro ⟨hx, hmem⟩
    obtain ⟨j, hj⟩ := List.getElem?_of_mem hmem
    refine ⟨j, ?_, hj⟩
    rintro rfl
    obtain rfl : x = y := Option.some.inj (hi.symm.trans hj)
    exact hx hy

theorem eraseIdx (hu : Unique key l) (i : ℕ) : Unique key (l.eraseIdx i) := by
  intro a b y z k ha hb hy hz
  rw [List.getElem?_eraseIdx] at ha hb
  split_ifs at ha hb with h1 h2 h2
  · exact hu a b y z k ha hb hy hz
  · have := hu a (b + 1) y z k ha hb hy hz
    omega
  · have := hu (a + 1) b y z k ha hb hy hz
    omega
  · have := hu (a + 1) (b + 1) y z k ha hb hy hz
    omega

end Unique

variable [DecidableEq κ]

theorem lookup_eq_none_iff : lookup key l k = none ↔ ∀ x ∈ l, key x ≠ some k := by
  simp [lookup]

theorem key_of_lookup (h : lookup key l k = some x) : key x = some k := by
  rw [lookup] at h
  simpa using List.find?_some h

theorem mem_of_lookup (h : lookup key l k = some x) : x ∈ l := List.mem_of_find?_eq_some h

namespace Unique

theorem lookup_eq_some_iff (hu : Unique key l) :
    lookup key l k = some x ↔ x ∈ l ∧ key x = some k := by
  constructor
  · exact fun h => ⟨mem_of_lookup h, key_of_lookup h⟩
  · rintro ⟨hx, hk⟩
    cases hl : lookup key l k with
    | none => exact absurd hk (lookup_eq_none_iff.mp hl x hx)
    | some y =>
      obtain ⟨i, hi⟩ := List.getElem?_of_mem hx
      obtain ⟨j, hj⟩ := List.getElem?_of_mem (mem_of_lookup hl)
      obtain rfl := hu i j x y k hi hj hk (key_of_lookup hl)
      exact hj.symm.trans hi

/-- A record may be replaced by one without key, with the same key, or with a new one. -/
theorem set (hu : Unique key l) (hi : l[i]? = some x)
    (hkey : ∀ k, key x' = some k → key x = some k ∨ lookup key l k = none) :
    Unique key (l.set i x') := by
  have hother {j : ℕ} {y : α} {k : κ} (hj : j ≠ i) (hy : l[j]? = some y) (hyk : key y = some k) :
      key x' ≠ some k := by
    intro hk
    rcases hkey k hk with hx | hnone
    · exact hj (hu j i y x k hy hi hyk hx)
    · exact lookup_eq_none_iff.mp hnone y (List.mem_of_getElem? hy) hyk
  have hlt := (List.getElem?_eq_some_iff.mp hi).1
  intro a b y z k ha hb hy hz
  by_cases hai : a = i <;> by_cases hbi : b = i
  · exact hai.trans hbi.symm
  · rw [hai, List.getElem?_set_self hlt, Option.some_inj] at ha
    rw [List.getElem?_set_ne (Ne.symm hbi)] at hb
    exact absurd (ha ▸ hy) (hother hbi hb hz)
  · rw [hbi, List.getElem?_set_self hlt, Option.some_inj] at hb
    rw [List.getElem?_set_ne (Ne.symm hai)] at ha
    exact absurd (hb ▸ hz) (hother hai ha hy)
  · rw [List.getElem?_set_ne (Ne.symm hai)] at ha
    rw [List.getElem?_set_ne (Ne.symm hbi)] at hb
    exact hu a b y z k ha hb hy hz

/-- What look-ups find after a record was replaced. -/
theorem lookup_set (hu : Unique key l) (hu' : Unique key (l.set i x')) (hi : l[i]? = some x)
    (k : κ) : lookup key (l.set i x') k =
      if key x' = some k then some x' else if key x = some k then none else lookup key l k := by
  apply Option.ext
  intro y
  rw [hu'.lookup_eq_some_iff, mem_set_iff hi]
  split_ifs with hx' hx
  · rw [Option.some_inj, eq_comm (a := x')]
    constructor
    · rintro ⟨rfl | ⟨j, hj, hy⟩, hk⟩
      · rfl
      · have hlt := (List.getElem?_eq_some_iff.mp hi).1
        have hself := List.getElem?_set_self (a := x') hlt
        rw [← List.getElem?_set_ne (a := x') (Ne.symm hj)] at hy
        exact absurd (hu' j i y x' k hy hself hk hx') hj
    · rintro rfl
      exact ⟨.inl rfl, hx'⟩
  · constructor
    · rintro ⟨rfl | hother, hk⟩
      · exact absurd hk hx'
      · exact absurd hx ((hu.mem_other_iff hi hk).mp hother).1
    · exact fun h => nomatch h
  · rw [hu.lookup_eq_some_iff]
    constructor
    · rintro ⟨rfl | hother, hk⟩
      · exact absurd hk hx'
      · exact ⟨((hu.mem_other_iff hi hk).mp hother).2, hk⟩
    · exact fun ⟨hmem, hk⟩ => ⟨.inr ((hu.mem_other_iff hi hk).mpr ⟨hx, hmem⟩), hk⟩

section Tables
variable {f f' : α → β}

theorem table_eq_some_iff (hu : Unique key l) {b : β} :
    table key f l k = some b ↔ ∃ x ∈ l, key x = some k ∧ f x = b := by
  rw [table, Option.map_eq_some_iff]
  simp only [hu.lookup_eq_some_iff, and_assoc]

/-- What a table shows after a record was replaced; `f'` shows the others as `f` did. -/
theorem table_set (hu : Unique key l) (hu' : Unique key (l.set i x')) (hi : l[i]? = some x)
    (hf : ∀ (j : ℕ) (y : α), j ≠ i → l[j]? = some y → key y ≠ none → f' y = f y) (k : κ) :
    table key f' (l.set i x') k =
      if key x' = some k then some (f' x') else if key x = some k then none
      else table key f l k := by
  rw [table, hu.lookup_set hu' hi]
  split_ifs with hx' hx
  · rfl
  · rfl
  · rw [table]
    cases hl : lookup key l k with
    | none => rfl
    | some y =>
      have hy := key_of_lookup hl
      obtain ⟨j, hji, hj⟩ := (hu.mem_other_iff hi hy).mpr ⟨hx, mem_of_lookup hl⟩
      rw [Option.map_some, Option.map_some, hf j y hji hj (by rw [hy]; exact Option.some_ne_none k)]

variable (hu : Unique key l) (hi : l[i]? = some x)
  (hf : ∀ (j : ℕ) (y : α), j ≠ i → l[j]? = some y → key y ≠ none → f' y = f y)
include hu hi hf

theorem table_set_same (hx : key x = some k) (hx' : key x' = some k) :
    table key f' (l.set i x') = Function.update (table key f l) k (some (f' x')) := by
  have hu' : Unique key (l.set i x') := hu.set hi fun m hm => .inl (hx.trans (hx'.symm.trans hm))
  funext m
  rw [hu.table_set hu' hi hf, hx, hx', Function.update_apply]
  grind

theorem table_set_moved (hx : key x = some k) (hx' : key x' = some k')
    (hnew : lookup key l k' = none) :
    table key f' (l.set i x') =
      Function.update (Function.update (table key f l) k none) k' (some (f' x')) := by
  have hu' : Unique key (l.set i x') :=
    hu.set hi fun m hm => .inr (Option.some.inj (hx'.symm.trans hm) ▸ hnew)
  funext m
  rw [hu.table_set hu' hi hf, hx, hx', Function.update_apply, Function.update_apply]
  grind

theorem table_set_new (hx : key x = none) (hx' : key x' = some k) (hnew : lookup key l k = none) :
    table key f' (l.set i x') = Function.update (table key f l) k (some (f' x')) := by
  have hu' : Unique key (l.set i x') :=
    hu.set hi fun m hm => .inr (Option.some.inj (hx'.symm.trans hm) ▸ hnew)
  funext m
  rw [hu.table_set hu' hi hf, hx, hx', Function.update_apply]
  grind

theorem table_set_gone (hx : key x = some k) (hx' : key x' = none) :
    table key f' (l.set i x') = Function.update (table key f l) k none := by
  have hu' : Unique key (l.set i x') := hu.set hi fun m hm => nomatch hx'.symm.trans hm
  funext m
  rw [hu.table_set hu' hi hf, hx, hx', Function.update_apply]
  grind

theorem table_set_free (hx : key x = none) (hx' : key x' = none) :
    table key f' (l.set i x') = table key f l := by
  have hu' : Unique key (l.set i x') := hu.set hi fun m hm => nomatch hx'.symm.trans hm
  funext m
  rw [hu.table_set hu' hi hf, hx, hx']
  grind

end Tables

/-- A record taken out of the list. -/
theorem lookup_eraseIdx (hu : Unique key l) (hi : l[i]? = some x) (hx : key x = some k) (m : κ) :
    lookup key (l.eraseIdx i) m = if m = k then none else lookup key l m := by
  apply Option.ext
  intro y
  rw [(hu.eraseIdx i).lookup_eq_some_iff, List.mem_eraseIdx_iff_getElem?]
  constructor
  · rintro ⟨hother, hm⟩
    obtain ⟨hne, hmem⟩ := (hu.mem_other_iff hi hm).mp hother
    rw [if_neg (fun heq : m = k => hne (heq ▸ hx)), hu.lookup_eq_some_iff]
    exact ⟨hmem, hm⟩
  · intro h
    split_ifs at h with hmk
    obtain ⟨hmem, hm⟩ := hu.lookup_eq_some_iff.mp h
    refine ⟨(hu.mem_other_iff hi hm).mpr ⟨fun hxm => hmk ?_, hmem⟩, hm⟩
    exact Option.some.inj (hxm.symm.trans hx)

theorem table_eraseIdx (hu : Unique key l) (hi : l[i]? = some x) (hx : key x = some k) (f : α → β) :
    table key f (l.eraseIdx i) = Function.update (table key f l) k none := by
  funext m
  rw [table, hu.lookup_eraseIdx hi hx, Function.update_apply]
  split_ifs <;> rfl

end Unique

/-- A record with a new key at the end of the list. -/
theorem table_append (hx : key x = some k) (hnew : lookup key l k = none) (f : α → β) :
    table key f (l ++ [x]) = Function.update (table key f l) k (some (f x)) := by
  funext m
  rw [table, lookup, List.find?_append, Function.update_apply]
  by_cases hm : m = k
  · subst hm
    rw [if_pos rfl]
    change ((lookup key l m).or _).map f = _
    rw [hnew, Option.none_or, List.find?_singleton, if_pos (decide_eq_true hx), Option.map_some]
  · have hne : key x ≠ some m := fun h => hm (Option.some.inj (h.symm.trans hx))
    rw [if_neg hm, List.find?_singleton, if_neg (by simpa using hne), Option.or_none]
    rfl

end MiniFs.Library.Keyed

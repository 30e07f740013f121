import Mathlib.Algebra.BigOperators.Group.Finset.Basic
import Mathlib.Data.Finset.Card
import Mathlib.Data.Nat.Find

/-! # Exclusive ownership of blocks

Owners hold lists of blocks out of a set of blocks in use. Some blocks in use are
reserved and belong to nobody. An owner may hand its blocks back and take others
that are not in use; what it takes without keeping a record of it is lost.
-/

namespace MiniFs.Library.Ownership

variable {ι β : Type*} [DecidableEq β]

/-- Every block is recorded at most once, is in use, and is not reserved. -/
structure Exclusive (reserved used : Finset β) (own : ι → List β) : Prop where
  reserved_used : ∀ b ∈ reserved, b ∈ used
  nodup : ∀ i, (own i).Nodup
  own_used : ∀ i, ∀ b ∈ own i, b ∈ used
  own_free : ∀ i, ∀ b ∈ own i, b ∉ reserved
  disjoint : ∀ i j, i ≠ j → ∀ b ∈ own i, b ∉ own j

/-- The blocks in use after `old` went back and `held` was taken. -/
def exchange (used : Finset β) (old held : List β) : Finset β :=
  used \ old.toFinset ∪ held.toFinset

theorem mem_exchange {used : Finset β} {old held : List β} {b : β} :
    b ∈ exchange used old held ↔ b ∈ used ∧ b ∉ old ∨ b ∈ held := by
  simp only [exchange, Finset.mem_union, Finset.mem_sdiff, List.mem_toFinset]

theorem exchange_nil (used : Finset β) : exchange used [] [] = used := by
  ext b
  simp [mem_exchange]

theorem card_exchange {used : Finset β} {old held : List β} (hold : old.Nodup)
    (hused : ∀ b ∈ old, b ∈ used) (hheld : held.Nodup) (hfresh : ∀ b ∈ held, b ∈ used → b ∈ old) :
    (exchange used old held).card + old.length = used.card + held.length := by
  have hsub : old.toFinset ⊆ used := fun b hb => hused b (List.mem_toFinset.mp hb)
  have hdis : Disjoint (used \ old.toFinset) held.toFinset := by
    rw [Finset.disjoint_left]
    intro b hb hb'
    rw [Finset.mem_sdiff, List.mem_toFinset] at hb
    exact hb.2 (hfresh b (List.mem_toFinset.mp hb') hb.1)
  have hle := Finset.card_le_card hsub
  rw [exchange, Finset.card_union_of_disjoint hdis, Finset.card_sdiff_of_subset hsub,
    List.toFinset_card_of_nodup hold, List.toFinset_card_of_nodup hheld]
  rw [List.toFinset_card_of_nodup hold] at hle
  omega

/-- A first-fit search among `n` blocks, fewer of them in use, succeeds. -/
theorem exists_least_free {used : Finset ℕ} {n : ℕ} (h : used.card < n) :
    ∃ k < n, k ∉ used ∧ ∀ j < k, j ∈ used := by
  have hex : ∃ k, k < n ∧ k ∉ used := by
    by_contra hno
    have hsub : Finset.range n ⊆ used := by
      intro j hj
      by_contra hfree
      exact hno ⟨j, Finset.mem_range.mp hj, hfree⟩
    have hcard := Finset.card_le_card hsub
    rw [Finset.card_range] at hcard
    omega
  obtain ⟨hlt, hfree⟩ := Nat.find_spec hex
  refine ⟨Nat.find hex, hlt, hfree, fun j hj => ?_⟩
  by_contra hj'
  exact Nat.find_min hex hj ⟨hj.trans hlt, hj'⟩

namespace Exclusive
variable {reserved used : Finset β} {own : ι → List β}

/-- Owner `i` gives its blocks back, takes `held`, and records `new` of these. -/
theorem reassign [DecidableEq ι] (h : Exclusive reserved used own) {i : ι} {new held : List β}
    (hnew : new.Nodup) (hsub : ∀ b ∈ new, b ∈ held) (hfresh : ∀ b ∈ held, b ∈ used → b ∈ own i) :
    Exclusive reserved (exchange used (own i) held) (Function.update own i new) := by
  have hother : ∀ j, j ≠ i → ∀ b ∈ own j, b ∉ new := by
    intro j hj b hb hbn
    exact h.disjoint j i hj b hb (hfresh b (hsub b hbn) (h.own_used j b hb))
  constructor
  · intro b hb
    exact mem_exchange.mpr (.inl ⟨h.reserved_used b hb, fun hbi => h.own_free i b hbi hb⟩)
  · intro j
    rcases eq_or_ne j i with rfl | hj
    · rw [Function.update_self]; exact hnew
    · rw [Function.update_of_ne hj]; exact h.nodup j
  · intro j b hb
    rcases eq_or_ne j i with rfl | hj
    · rw [Function.update_self] at hb
      exact mem_exchange.mpr (.inr (hsub b hb))
    · rw [Function.update_of_ne hj] at hb
      exact mem_exchange.mpr (.inl ⟨h.own_used j b hb, h.disjoint j i hj b hb⟩)
  · intro j b hb hbr
    rcases eq_or_ne j i with rfl | hj
    · rw [Function.update_self] at hb
      exact h.own_free j b (hfresh b (hsub b hb) (h.reserved_used b hbr)) hbr
    · rw [Function.update_of_ne hj] at hb
      exact h.own_free j b hb hbr
  · intro j k hjk b hb hbk
    rcases eq_or_ne j i with rfl | hj
    · rw [Function.update_self] at hb
      rw [Function.update_of_ne hjk.symm] at hbk
      exact hother k hjk.symm b hbk hb
    · rw [Function.update_of_ne hj] at hb
      rcases eq_or_ne k i with rfl | hk
      · rw [Function.update_self] at hbk
        exact hother j hj b hb hbk
      · rw [Function.update_of_ne hk] at hbk
        exact h.disjoint j k hjk b hb hbk

/-! ## Counting -/

/-- The blocks in use that are neither reserved nor recorded by an owner in `s`. -/
def lost (reserved used : Finset β) (own : ι → List β) (s : Finset ι) : Finset β :=
  (used \ reserved) \ s.biUnion fun i => (own i).toFinset

theorem card_owned (h : Exclusive reserved used own) (s : Finset ι) :
    (s.biUnion fun i => (own i).toFinset).card = ∑ i ∈ s, (own i).length := by
  rw [Finset.card_biUnion]
  · exact Finset.sum_congr rfl fun i _ => List.toFinset_card_of_nodup (h.nodup i)
  · intro i _ j _ hij
    change Disjoint _ _
    rw [Finset.disjoint_left]
    intro b hb hb'
    exact h.disjoint i j hij b (List.mem_toFinset.mp hb) (List.mem_toFinset.mp hb')

theorem card_used (h : Exclusive reserved used own) (s : Finset ι) :
    used.card = reserved.card + ∑ i ∈ s, (own i).length + (lost reserved used own s).card := by
  have hsub : (s.biUnion fun i => (own i).toFinset) ⊆ used \ reserved := by
    intro b hb
    obtain ⟨i, -, hi⟩ := Finset.mem_biUnion.mp hb
    have hi := List.mem_toFinset.mp hi
    exact Finset.mem_sdiff.mpr ⟨h.own_used i b hi, h.own_free i b hi⟩
  have hres : reserved ⊆ used := h.reserved_used
  have h1 := Finset.card_sdiff_add_card_eq_card hsub
  have h2 := Finset.card_sdiff_add_card_eq_card hres
  rw [h.card_owned s] at h1
  unfold lost
  omega

/-- Taking `held` and recording only `new` loses the difference. -/
theorem card_lost_reassign [DecidableEq ι] (h : Exclusive reserved used own) {i : ι} {s : Finset ι}
    (hi : i ∈ s) {new held : List β} (hnew : new.Nodup) (hheld : held.Nodup)
    (hsub : ∀ b ∈ new, b ∈ held) (hfresh : ∀ b ∈ held, b ∈ used → b ∈ own i) :
    (lost reserved (exchange used (own i) held) (Function.update own i new) s).card + new.length =
      (lost reserved used own s).card + held.length := by
  have hcard := card_exchange (h.nodup i) (h.own_used i) hheld hfresh
  have hbefore := h.card_used s
  have hafter := (h.reassign hnew hsub hfresh).card_used s
  have hsum : ∑ j ∈ s, (own j).length = (own i).length + ∑ j ∈ s.erase i, (own j).length :=
    (Finset.add_sum_erase s _ hi).symm
  have hsum' : ∑ j ∈ s, (Function.update own i new j).length =
      new.length + ∑ j ∈ s.erase i, (own j).length := by
    rw [← Finset.add_sum_erase s _ hi, Function.update_self]
    congr 1
    apply Finset.sum_congr rfl
    intro j hj
    rw [Function.update_of_ne (Finset.ne_of_mem_erase hj)]
  omega

end Exclusive

end MiniFs.Library.Ownership

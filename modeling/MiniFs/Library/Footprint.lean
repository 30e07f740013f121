import Mathlib.Data.Set.Basic
import Mathlib.Data.Set.Function

/-! # Effects with a footprint

An effect on a store of values under keys has a footprint: it changes nothing under
other keys, and what it puts under its own depends only on what was there. What a
list of effects leaves under a set of keys is then the work of the effects inside
the set, whatever the others do in between.
-/

set_option autoImplicit false

namespace MiniFs.Library.Footprint

variable {ι β κ : Type}

/-- The effect `e` has the footprint `keys`. -/
structure Within (keys : Set ι) (e : (ι → β) → ι → β) : Prop where
  frame : ∀ s, ∀ i ∉ keys, e s i = s i
  reads : ∀ s t, Set.EqOn s t keys → Set.EqOn (e s) (e t) keys

namespace Within

variable {keys A : Set ι} {e : (ι → β) → ι → β} {s t : ι → β}

protected theorem id (keys : Set ι) : Within keys (id : (ι → β) → ι → β) :=
  ⟨fun _ _ _ => rfl, fun _ _ h => h⟩

/-- Of a set around its footprint, an effect sees no more than the set. -/
theorem eqOn_of_subset (h : Within keys e) (hsub : keys ⊆ A) (hst : Set.EqOn s t A) :
    Set.EqOn (e s) (e t) A := by
  intro i hi
  by_cases hk : i ∈ keys
  · exact h.reads s t (hst.mono hsub) hk
  · rw [h.frame s i hk, h.frame t i hk]
    exact hst hi

/-- On a set beside its footprint, an effect does nothing. -/
theorem eqOn_of_disjoint (h : Within keys e) (hdis : ∀ i ∈ keys, i ∉ A) :
    Set.EqOn (e s) s A :=
  fun i hi => h.frame s i fun hk => hdis i hk hi

end Within

/-! ## Lists of effects -/

def runAll (effect : κ → (ι → β) → ι → β) (cs : List κ) (s : ι → β) : ι → β :=
  cs.foldl (fun s c => effect c s) s

variable {effect : κ → (ι → β) → ι → β} {keys : κ → Set ι} {A : Set ι} {cs : List κ}

@[simp] theorem runAll_nil (s : ι → β) : runAll effect [] s = s := rfl

@[simp] theorem runAll_cons (c : κ) (cs : List κ) (s : ι → β) :
    runAll effect (c :: cs) s = runAll effect cs (effect c s) := rfl

theorem runAll_append (cs ds : List κ) (s : ι → β) :
    runAll effect (cs ++ ds) s = runAll effect ds (runAll effect cs s) := List.foldl_append

/-- What the keys of `A` hold in the end is the work of the effects `inside` it alone. -/
theorem runAll_filter (inside : κ → Bool) (h : ∀ c ∈ cs, Within (keys c) (effect c))
    (hin : ∀ c ∈ cs, inside c = true → keys c ⊆ A)
    (hout : ∀ c ∈ cs, inside c = false → ∀ i ∈ keys c, i ∉ A) {s t : ι → β}
    (hst : Set.EqOn s t A) :
    Set.EqOn (runAll effect cs s) (runAll effect (cs.filter inside) t) A := by
  induction cs generalizing s t with
  | nil => exact hst
  | cons c cs ih =>
    have hc := h c List.mem_cons_self
    have hrest {s t : ι → β} (hst : Set.EqOn s t A) :
        Set.EqOn (runAll effect cs s) (runAll effect (cs.filter inside) t) A :=
      ih (fun d hd => h d (List.mem_cons_of_mem c hd))
        (fun d hd => hin d (List.mem_cons_of_mem c hd))
        (fun d hd => hout d (List.mem_cons_of_mem c hd)) hst
    rw [runAll_cons]
    cases hside : inside c with
    | true =>
      rw [List.filter_cons_of_pos hside, runAll_cons]
      exact hrest (hc.eqOn_of_subset (hin c List.mem_cons_self hside) hst)
    | false =>
      rw [List.filter_cons_of_neg (by rw [hside]; decide)]
      have hsame := hc.eqOn_of_disjoint (hout c List.mem_cons_self hside) (s := s)
      exact hrest (hsame.trans hst)

end MiniFs.Library.Footprint

import MiniFs.Library.Exec

/-! # A program that follows a machine

A machine is a function from a state to an answer and a state: it is never stuck,
and it is what a program is compared with. A program follows a machine through an
abstraction function if, on the states of an invariant, it returns the machine's
answer and shows the machine's next state.
-/

namespace MiniFs.Library.Exec

variable {σ τ α β κ : Type}

/-- On the states of `inv`, the program does what the machine does to what `abs` shows. -/
def Follows (inv : σ → Prop) (abs : σ → τ) (m : Prog σ α) (f : τ → α × τ) : Prop :=
  ∀ s, inv s → ∃ s', m s = some ((f (abs s)).1, s') ∧ inv s' ∧ abs s' = (f (abs s)).2

def runEach (f : κ → τ → α × τ) : List κ → τ → List α × τ
  | [], v => ([], v)
  | c :: cs, v => ((f c v).1 :: (runEach f cs (f c v).2).1, (runEach f cs (f c v).2).2)

variable {inv : σ → Prop} {abs : σ → τ}

namespace Follows

/-- A program in front that shows nothing. -/
theorem unseen {n : Prog σ β} {m : Prog σ α} {b : β} {f : τ → α × τ}
    (hn : ∀ s, inv s → ∃ s', n s = some (b, s') ∧ inv s' ∧ abs s' = abs s)
    (hm : Follows inv abs m f) :
    Follows inv abs (n >>= fun b => m >>= fun a => pure (b, a))
      fun v => ((b, (f v).1), (f v).2) := by
  intro s hs
  obtain ⟨t, ht, hinv, habs⟩ := hn s hs
  obtain ⟨u, hu, hinv', habs'⟩ := hm t hinv
  rw [habs] at hu habs'
  refine ⟨u, ?_, hinv', habs'⟩
  simp only [bind_apply, ht, hu, Option.bind_some, pure_apply]

/-- If every command follows the machine, so does a list of commands. -/
theorem list {prog : κ → Prog σ α} {f : κ → τ → α × τ} {cs : List κ}
    (h : ∀ c ∈ cs, Follows inv abs (prog c) (f c)) :
    Follows inv abs (runList prog cs) (runEach f cs) := by
  induction cs with
  | nil => exact fun s hs => ⟨s, rfl, hs, rfl⟩
  | cons c cs ih =>
    intro s hs
    obtain ⟨t, ht, hinv, habs⟩ := h c List.mem_cons_self s hs
    obtain ⟨u, hu, hinv', habs'⟩ := ih (fun d hd => h d (List.mem_cons_of_mem c hd)) t hinv
    rw [habs] at hu habs'
    refine ⟨u, ?_, hinv', habs'⟩
    simp only [runList, bind_apply, ht, hu, Option.bind_some, pure_apply, runEach]

end Follows

end MiniFs.Library.Exec

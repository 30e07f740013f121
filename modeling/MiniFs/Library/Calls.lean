import MiniFs.Library.Exec

/-! # The calls a run makes

A program calls its parts: one half of a bind from the state it is started in, the
other half from the state the first one leaves.
-/

namespace MiniFs.Library.Exec

variable {σ α β γ : Type}

/-- The run of a program from a state calls `c` when the state is `t`. -/
inductive Calls (c : Prog σ α) (t : σ) : {β : Type} → Prog σ β → σ → Prop
  | here : Calls c t c t
  | first {β γ : Type} {m : Prog σ γ} {f : γ → Prog σ β} {s : σ} (h : Calls c t m s) :
    Calls c t (m >>= f) s
  | after {β γ : Type} {m : Prog σ γ} {f : γ → Prog σ β} {s s1 : σ} {a : γ}
    (hm : m s = some (a, s1)) (h : Calls c t (f a) s1) : Calls c t (m >>= f) s

/-- A run that is not stuck makes no call that is stuck. -/
theorem Calls.isSome {c : Prog σ α} {t s : σ} {m : Prog σ β} (h : Calls c t m s)
    (hm : (m s).isSome) : (c t).isSome := by
  induction h with
  | here => exact hm
  | first _ ih =>
    rw [bind_apply] at hm
    exact ih (Option.isSome_of_isSome_bind hm)
  | after hfirst _ ih =>
    rw [bind_apply, hfirst, Option.bind_some] at hm
    exact ih hm

end MiniFs.Library.Exec

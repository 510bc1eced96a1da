import Mathlib.Data.List.Basic

/-! # Automata with visible results

An automaton takes one operation at a time and answers each with a result.  `run` is the state a list
of operations leads to, `trace` the list of answers given on the way.  What each step keeps holds
along every run (`invariant_run`).

One automaton *refines* another along `abs` when every single step answers alike and commutes with
`abs` (`Refines`).  The whole run then does the same (`Refines.run`, `Refines.trace`): no client
that only sees answers can tell the two apart.
-/

universe u v w x

/-- A deterministic automaton over states `S`, operations `Op` and results `R`. -/
structure Automaton (S : Type u) (Op : Type v) (R : Type w) where
  step : S → Op → S × R

namespace Automaton
variable {S : Type u} {A : Type x} {Op : Type v} {R : Type w}

/-- The state after a list of operations. -/
def run (M : Automaton S Op R) : S → List Op → S
  | s, [] => s
  | s, op :: ops => M.run (M.step s op).1 ops

/-- The results of a list of operations, in order. -/
def trace (M : Automaton S Op R) : S → List Op → List R
  | _, [] => []
  | s, op :: ops => (M.step s op).2 :: M.trace (M.step s op).1 ops

theorem run_append (M : Automaton S Op R) (s : S) (ops more : List Op) :
    M.run s (ops ++ more) = M.run (M.run s ops) more := by
  induction ops generalizing s with
  | nil => rfl
  | cons op ops ih => exact ih _

/-- **What every step keeps holds after every run.** -/
theorem invariant_run {M : Automaton S Op R} {Inv : S → Prop}
    (hstep : ∀ s op, Inv s → Inv (M.step s op).1) {s : S} (hs : Inv s) (ops : List Op) :
    Inv (M.run s ops) := by
  induction ops generalizing s with
  | nil => exact hs
  | cons op ops ih => exact ih (hstep s op hs)

/-- Every step of `C` is, seen through `abs`, the step of `M` with the same result. -/
def Refines (C : Automaton S Op R) (M : Automaton A Op R) (abs : S → A) : Prop :=
  ∀ s op, M.step (abs s) op = (abs (C.step s op).1, (C.step s op).2)

namespace Refines
variable {C : Automaton S Op R} {M : Automaton A Op R} {abs : S → A}

/-- **Whole runs commute with the abstraction.** -/
theorem run (h : C.Refines M abs) (s : S) (ops : List Op) :
    abs (C.run s ops) = M.run (abs s) ops := by
  induction ops generalizing s with
  | nil => rfl
  | cons op ops ih =>
    show abs (C.run (C.step s op).1 ops) = M.run (M.step (abs s) op).1 ops
    rw [ih, h s op]

/-- **Whole runs give the same results.** -/
theorem trace (h : C.Refines M abs) (s : S) (ops : List Op) :
    C.trace s ops = M.trace (abs s) ops := by
  induction ops generalizing s with
  | nil => rfl
  | cons op ops ih =>
    show (C.step s op).2 :: C.trace (C.step s op).1 ops =
      (M.step (abs s) op).2 :: M.trace (M.step (abs s) op).1 ops
    rw [ih, h s op]

end Refines
end Automaton

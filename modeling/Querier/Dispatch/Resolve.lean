import Querier.Dispatch.Task

/-!
# Resolving

One exchange from beginning to end, with nothing else going on: the task is stepped until
it is finished, and the clock moves by what each step waits. A dispatcher with several
exchanges at once is any other order of the same steps.

## Main results

* `Task.run_finished` and `Task.run_step`: how a run unfolds.
-/

namespace Querier

/-- What an exchange leads to: its result, what it left of the shared state, and when. -/
structure Resolved where
  resolution : Resolution
  shared : Shared
  finish : Time

namespace Task

/-- Steps a task until it is finished. -/
def run (t : Task) (d : Dispatcher) (now : Time) (s : Shared) : Resolved :=
  match _h : t.result? with
  | some r => ⟨r, s, now⟩
  | none =>
    let next := t.step d now s
    next.2.1.run d (now + next.2.2) next.1
termination_by t.weight s
decreasing_by exact weight_step t d now s _h

theorem run_finished {t : Task} {r : Resolution} (h : t.result? = some r) (d : Dispatcher)
    (now : Time) (s : Shared) : t.run d now s = ⟨r, s, now⟩ := by
  rw [run]
  split <;> simp_all

theorem run_step {t : Task} (h : t.result? = none) (d : Dispatcher) (now : Time)
    (s : Shared) :
    t.run d now s =
      (t.step d now s).2.1.run d (now + (t.step d now s).2.2) (t.step d now s).1 := by
  rw [run]
  split <;> simp_all

end Task

namespace Dispatcher

/-- Performs an exchange. -/
def resolve (d : Dispatcher) (now : Time) (s : Shared) (r : Request) (n : Network) :
    Resolved :=
  let (s, t) := d.begin now s r n
  t.run d now s

end Dispatcher

end Querier

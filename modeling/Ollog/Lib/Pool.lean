import Mathlib.Logic.Function.Basic
import Ollog.Lib.Effects

/-!
# Pools of threads

A pool is a store and a family of threads, each with a state of its own.  One step is a step of one
thread: it looks at the store, and leaves a new state of the thread and a new store.  A schedule is
the list of the threads that take a step, so that every interleaving is a schedule.
-/

set_option autoImplicit false

namespace Pool

open Effects

variable {ι τ σ : Type}

/-- A store and the threads on it. -/
structure State (ι τ σ : Type) where
  store : σ
  threads : ι → τ

variable [DecidableEq ι]

/-- One step of a thread. -/
def step (advance : ι → τ → σ → τ × σ) (s : State ι τ σ) (i : ι) : State ι τ σ where
  store := (advance i (s.threads i) s.store).2
  threads := Function.update s.threads i (advance i (s.threads i) s.store).1

variable {advance : ι → τ → σ → τ × σ} {s : State ι τ σ} {i j : ι}

@[simp] theorem store_step :
    (step advance s i).store = (advance i (s.threads i) s.store).2 := rfl

@[simp] theorem threads_step_self :
    (step advance s i).threads i = (advance i (s.threads i) s.store).1 :=
  Function.update_self ..

@[simp] theorem threads_step_of_ne (h : j ≠ i) : (step advance s i).threads j = s.threads j :=
  Function.update_of_ne h ..

/-- What every step keeps of the thread that takes it holds of all threads. -/
theorem forall_threads_step {J : ι → τ → Prop} (h : ∀ j, J j (s.threads j))
    (hstep : J i (advance i (s.threads i) s.store).1) : ∀ j, J j ((step advance s i).threads j) := by
  intro j
  by_cases hj : j = i
  · subst hj
    rwa [threads_step_self]
  · rw [threads_step_of_ne hj]
    exact h j

end Pool

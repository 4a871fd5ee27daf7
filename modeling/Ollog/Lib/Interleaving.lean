import Mathlib.Logic.Function.Basic
import Ollog.Lib.Effects

/-!
# Programs that read, compute and write

A request that is not atomic reads the store once, makes a plan from what it has read, and carries
the plan out in one step later on.  In between, other requests carry out theirs.  A schedule is a
list of such half steps, in any order.

`serial` is a request run without interruption.  A write that does to the store it finds what its
request would do to that store if it started now is as good as serial, and a schedule all of whose
writes are is equivalent to running the requests one after another, in the order of their writes
(`run_eq_serial`).
-/

set_option autoImplicit false

namespace Interleaving

open Effects

variable {σ ι π : Type}

/-- A family of requests, each in its two halves. -/
structure Program (σ ι π : Type) where
  /-- What a request makes of the store it reads; `none` if it ends there. -/
  plan : ι → σ → Option π
  /-- The store after a plan is carried out; `none` if the store refuses it. -/
  write : π → σ → Option σ

/-- A half step. -/
inductive Event (ι : Type) where
  | read (i : ι)
  | write (i : ι)

/-- The state of a schedule. -/
structure State (σ ι π : Type) where
  store : σ
  /-- The plans that have been made and not yet carried out. -/
  pending : ι → Option π
  /-- The requests whose writes went through, oldest first. -/
  committed : List ι

/-- Nobody has read anything yet. -/
def start (s : σ) : State σ ι π := ⟨s, fun _ ↦ none, []⟩

namespace Program

variable (P : Program σ ι π)

/-- A request run without interruption. -/
def serial (s : σ) (i : ι) : σ :=
  match P.plan i s with
  | none => s
  | some p => (P.write p s).getD s

variable [DecidableEq ι]

/-- One half step. -/
def step (s : State σ ι π) : Event ι → State σ ι π
  | .read i => { s with pending := Function.update s.pending i (P.plan i s.store) }
  | .write i =>
    match s.pending i with
    | none => s
    | some p =>
      match P.write p s.store with
      | none => { s with pending := Function.update s.pending i none }
      | some t => ⟨t, Function.update s.pending i none, s.committed ++ [i]⟩

/-- What holds of a request, its plan and the store at every write that goes through. -/
def AtWrites (cond : ι → π → σ → Prop) (s : State σ ι π) : Event ι → Prop
  | .read _ => True
  | .write i => ∀ p t, s.pending i = some p → P.write p s.store = some t → cond i p s.store

variable {P}

/-- The invariant: every pending plan was made by its request, and the store is the one the
committed requests leave when they are run one after another. -/
structure Serialised (s₀ : σ) (s : State σ ι π) : Prop where
  planned : ∀ i p, s.pending i = some p → ∃ t, P.plan i t = some p
  store_eq : s.store = run P.serial s₀ s.committed

omit [DecidableEq ι] in
theorem serialised_start (s₀ : σ) : Serialised (P := P) s₀ (start s₀) :=
  ⟨fun _ _ h ↦ (nomatch h), rfl⟩

theorem Serialised.step {cond : ι → π → σ → Prop}
    (hcond : ∀ i p t₀ t t', P.plan i t₀ = some p → cond i p t → P.write p t = some t' →
      P.serial t i = t')
    {s₀ : σ} {s : State σ ι π} {e : Event ι} (h : Serialised (P := P) s₀ s)
    (he : P.AtWrites cond s e) : Serialised (P := P) s₀ (P.step s e) := by
  have hupdate : ∀ i (o : Option π), (∀ p, o = some p → ∃ t, P.plan i t = some p) →
      ∀ j p, Function.update s.pending i o j = some p → ∃ t, P.plan j t = some p := by
    intro i o ho j p hp
    by_cases hj : j = i
    · subst hj
      rw [Function.update_self] at hp
      exact ho p hp
    · rw [Function.update_of_ne hj] at hp
      exact h.planned j p hp
  cases e with
  | read i => exact ⟨hupdate i _ fun p hp ↦ ⟨s.store, hp⟩, h.store_eq⟩
  | write i =>
    rw [Program.step]
    split
    · exact h
    rename_i p hp
    split
    · exact ⟨hupdate i none fun _ hnone ↦ (by cases hnone), h.store_eq⟩
    · rename_i t ht
      refine ⟨hupdate i none fun _ hnone ↦ (by cases hnone), ?_⟩
      obtain ⟨t₀, ht₀⟩ := h.planned i p hp
      rw [run_append, run_cons, run_nil, ← h.store_eq]
      exact (hcond i p t₀ s.store t ht₀ (he p t hp ht) ht).symm

/-- **Serialisability.**  If every write that goes through does what its request would do to the
store it finds, the schedule leaves the store that the committed requests leave when they are run
one after another, in the order of their writes. -/
theorem run_eq_serial {cond : ι → π → σ → Prop}
    (hcond : ∀ i p t₀ t t', P.plan i t₀ = some p → cond i p t → P.write p t = some t' →
      P.serial t i = t')
    {s₀ : σ} {events : List (Event ι)}
    (h : Guarded P.step (P.AtWrites cond) (start s₀) events) :
    (run P.step (start s₀) events).store =
      run P.serial s₀ (run P.step (start s₀) events).committed :=
  (h.induction (fun _ _ hs he ↦ hs.step hcond he) (serialised_start (P := P) s₀)).store_eq

end Program

end Interleaving

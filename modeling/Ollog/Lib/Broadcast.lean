import Mathlib.Logic.Function.Basic
import Ollog.Lib.Effects

/-!
# Broadcasting into queues

A hub keeps a set of queues, each without a bound.  Whoever wants to listen connects, and gets a
queue of its own; a broadcast puts one event into every queue that is connected at that time, in
any order, and never waits; a listener takes what is in its queue, oldest first, whenever it likes;
and who has disconnected gets nothing any more.

`heard` says what a listener ought to hear of a history: the events that are broadcast while it is
connected.  What it has taken and what still waits in its queue is always that, in this order
(`given_run`): nothing is lost, and nothing comes twice, however the steps of all the
listeners and all the broadcasts are interleaved.
-/

set_option autoImplicit false

namespace Broadcast

open Effects

variable {ε : Type}

/-! ## The hub -/

/-- A set of queues.  The queues are named by the order in which they were made, so that a new one
is never one that was there before. -/
structure Hub (ε : Type) where
  /-- The queues that are connected. -/
  queues : List Nat
  /-- What waits in every queue, oldest first. -/
  items : Nat → List ε
  /-- The name of the queue that is made next. -/
  next : Nat
  nodup : queues.Nodup
  lt_next : ∀ q ∈ queues, q < next
  items_of_le : ∀ q, next ≤ q → items q = []

/-- Put an event into one queue after the other. -/
def putAll (event : ε) : List Nat → (Nat → List ε) → Nat → List ε
  | [], items => items
  | q :: queues, items => putAll event queues (Function.update items q (items q ++ [event]))

/-- The order of the queues does not matter: each gets the event once, at its end. -/
theorem putAll_apply (event : ε) {queues : List Nat} (h : queues.Nodup) (items : Nat → List ε)
    (q : Nat) :
    putAll event queues items q = if q ∈ queues then items q ++ [event] else items q := by
  induction queues generalizing items with
  | nil => rw [putAll, if_neg List.not_mem_nil]
  | cons q' queues ih =>
    obtain ⟨hq', hqueues⟩ := List.nodup_cons.1 h
    rw [putAll, ih hqueues]
    by_cases hq : q = q'
    · subst hq
      rw [if_neg hq', Function.update_self, if_pos List.mem_cons_self]
    · simp only [Function.update_of_ne hq, List.mem_cons, hq, false_or]

namespace Hub

/-- No queue has been made. -/
def empty : Hub ε where
  queues := []
  items _ := []
  next := 0
  nodup := List.nodup_nil
  lt_next _ h := absurd h List.not_mem_nil
  items_of_le _ _ := rfl

/-- Make a queue, and connect it. -/
def connect (h : Hub ε) : Nat × Hub ε :=
  (h.next, {
    queues := h.next :: h.queues
    items := h.items
    next := h.next + 1
    nodup := List.nodup_cons.2 ⟨fun hmem ↦ Nat.lt_irrefl _ (h.lt_next _ hmem), h.nodup⟩
    lt_next := by
      intro q hq
      rcases List.mem_cons.1 hq with rfl | hq
      · exact Nat.lt_succ_self _
      · exact Nat.lt_succ_of_lt (h.lt_next q hq)
    items_of_le := fun q hq ↦ h.items_of_le q (Nat.le_of_succ_le hq) })

/-- Disconnect a queue, if it is connected.  What waits in it stays there. -/
def disconnect (q : Nat) (h : Hub ε) : Hub ε :=
  { h with
    queues := h.queues.filter (· ≠ q)
    nodup := h.nodup.filter _
    lt_next := fun q' hq' ↦ h.lt_next q' (List.mem_filter.1 hq').1 }

/-- Put an event into every queue that is connected. -/
def broadcast (event : ε) (h : Hub ε) : Hub ε :=
  { h with
    items := putAll event h.queues h.items
    items_of_le := by
      intro q hq
      rw [putAll_apply event h.nodup, if_neg fun hmem ↦ Nat.not_lt.2 hq (h.lt_next q hmem)]
      exact h.items_of_le q hq }

/-- Take the oldest event out of a queue, if there is one. -/
def take (q : Nat) (h : Hub ε) : Option (ε × Hub ε) :=
  match hitems : h.items q with
  | [] => none
  | event :: rest => some (event, { h with
      items := Function.update h.items q rest
      items_of_le := by
        intro q' hq'
        by_cases hne : q' = q
        · rw [hne] at hq'
          rw [h.items_of_le q hq'] at hitems
          cases hitems
        · rw [Function.update_of_ne hne]
          exact h.items_of_le q' hq' })

variable {h : Hub ε} {q q' : Nat} {event : ε}

theorem items_broadcast : (h.broadcast event).items q =
    if q ∈ h.queues then h.items q ++ [event] else h.items q :=
  putAll_apply event h.nodup h.items q

theorem mem_queues_disconnect : q ∈ (h.disconnect q').queues ↔ q ∈ h.queues ∧ q ≠ q' := by
  rw [disconnect, List.mem_filter, decide_eq_true_iff]

/-- Only a queue that was made has anything to be taken. -/
theorem next_of_take {h' : Hub ε} (htake : h.take q = some (event, h')) :
    h'.next = h.next ∧ q < h.next := by
  rw [take] at htake
  split at htake
  · cases htake
  · rename_i hitems
    cases htake
    refine ⟨rfl, Nat.lt_of_not_le fun hle ↦ ?_⟩
    cases (h.items_of_le q hle).symm.trans hitems

theorem take_of_nil (hnil : h.items q = []) : h.take q = none := by
  rw [take]
  split
  · rfl
  · rename_i hitems
    cases hnil.symm.trans hitems

/-- What a listener takes is the oldest event of its queue; nothing else changes. -/
theorem take_of_cons {rest : List ε} (hcons : h.items q = event :: rest) :
    ∃ h', h.take q = some (event, h') ∧ h'.queues = h.queues ∧ h'.next = h.next ∧
      h'.items = Function.update h.items q rest := by
  rw [take]
  split
  · rename_i hitems
    cases hitems.symm.trans hcons
  · rename_i hitems
    cases hitems.symm.trans hcons
    exact ⟨_, rfl, rfl, rfl, rfl⟩

end Hub

/-! ## Listeners -/

/-- A hub, and what has been taken out of each of its queues. -/
structure Listeners (ε : Type) where
  hub : Hub ε
  taken : Nat → List ε
  taken_of_le : ∀ q, hub.next ≤ q → taken q = []

/-- What may happen at a hub. -/
inductive Action (ε : Type) where
  /-- Somebody gets a queue. -/
  | connect
  | broadcast (event : ε)
  /-- The owner of a queue takes what is next in it. -/
  | take (q : Nat)
  /-- The owner of a queue leaves. -/
  | disconnect (q : Nat)

namespace Listeners

/-- Nobody has connected. -/
def empty : Listeners ε := ⟨.empty, fun _ ↦ [], fun _ _ ↦ rfl⟩

/-- One step. -/
def step (s : Listeners ε) : Action ε → Listeners ε
  | .connect => { s with
      hub := s.hub.connect.2
      taken_of_le := fun q hq ↦ s.taken_of_le q (Nat.le_of_succ_le hq) }
  | .broadcast event => { s with hub := s.hub.broadcast event }
  | .take q =>
    match htake : s.hub.take q with
    | none => s
    | some (event, hub) => {
        hub
        taken := Function.update s.taken q (s.taken q ++ [event])
        taken_of_le := by
          obtain ⟨hnext, hlt⟩ := Hub.next_of_take htake
          intro q' hq'
          rw [hnext] at hq'
          have hne : q' ≠ q := (Nat.ne_of_lt (Nat.lt_of_lt_of_le hlt hq')).symm
          rw [Function.update_of_ne hne]
          exact s.taken_of_le q' hq' }
  | .disconnect q => { s with hub := s.hub.disconnect q }

/-- What a queue has been given: what has been taken out of it, and what waits in it. -/
def given (s : Listeners ε) (q : Nat) : List ε := s.taken q ++ s.hub.items q

variable {s : Listeners ε} {q q' : Nat} {event : ε} {actions : List (Action ε)}

theorem step_take_cases (s : Listeners ε) (q : Nat) :
    (s.hub.items q = [] ∧ s.step (.take q) = s) ∨
      ∃ event rest, s.hub.items q = event :: rest ∧
        (s.step (.take q)).hub.queues = s.hub.queues ∧ (s.step (.take q)).hub.next = s.hub.next ∧
        (s.step (.take q)).hub.items = Function.update s.hub.items q rest ∧
        (s.step (.take q)).taken = Function.update s.taken q (s.taken q ++ [event]) := by
  cases hitems : s.hub.items q with
  | nil =>
    refine .inl ⟨rfl, ?_⟩
    rw [step]
    split
    · rfl
    · rename_i htake
      cases htake.symm.trans (Hub.take_of_nil hitems)
  | cons event rest =>
    obtain ⟨h', htake, hqueues, hnext, hitems'⟩ := Hub.take_of_cons hitems
    refine .inr ⟨event, rest, rfl, ?_⟩
    rw [step]
    split
    · rename_i hnone
      cases hnone.symm.trans htake
    · rename_i hsome
      cases hsome.symm.trans htake
      exact ⟨hqueues, hnext, hitems', rfl⟩

/-- Taking moves one event from the queue to what was taken. -/
theorem given_step_take : (s.step (.take q')).given q = s.given q := by
  obtain ⟨-, hsame⟩ | ⟨event, rest, hitems, -, -, hitems', htaken⟩ := step_take_cases s q'
  · rw [hsame]
  · rw [given, given, hitems', htaken]
    by_cases hq : q = q'
    · subst hq
      rw [Function.update_self, Function.update_self, hitems, List.append_assoc]
      rfl
    · rw [Function.update_of_ne hq, Function.update_of_ne hq]

/-- A queue that was made stays made. -/
theorem next_le_step (action : Action ε) : s.hub.next ≤ (s.step action).hub.next := by
  cases action with
  | connect => exact Nat.le_succ _
  | broadcast event => exact Nat.le_refl _
  | take q =>
    obtain ⟨-, hsame⟩ | ⟨_, _, -, -, hnext, -, -⟩ := step_take_cases s q
    · exact Nat.le_of_eq (congrArg (fun s : Listeners ε ↦ s.hub.next) hsame.symm)
    · exact Nat.le_of_eq hnext.symm
  | disconnect q => exact Nat.le_refl _

theorem lt_next_run (h : q < s.hub.next) : q < (run step s actions).hub.next :=
  run_induction (I := fun s : Listeners ε ↦ q < s.hub.next)
    (fun _ action hlt ↦ Nat.lt_of_lt_of_le hlt (next_le_step action)) h actions

/-- **What a step gives to a queue**: a broadcast gives its event to those that are connected, and
nothing else gives anything. -/
theorem given_step (action : Action ε) : (s.step action).given q = s.given q ++
    (match action with
    | .broadcast event => if q ∈ s.hub.queues then [event] else []
    | _ => []) := by
  cases action with
  | connect => exact (List.append_nil _).symm
  | broadcast event =>
    rw [given, given, step, Hub.items_broadcast]
    by_cases hq : q ∈ s.hub.queues
    · simp only [hq, if_true, List.append_assoc]
    · simp only [hq, if_false, List.append_nil]
  | take q' => rw [given_step_take, List.append_nil]
  | disconnect q' => exact (List.append_nil _).symm

/-! ## What a listener ought to hear -/

/-- The events of a history that are broadcast while a queue is connected. -/
def heard (q : Nat) : (next : Nat) → (connected : Bool) → List (Action ε) → List ε
  | _, _, [] => []
  | next, connected, .connect :: actions =>
    heard q (next + 1) (connected || next == q) actions
  | next, connected, .broadcast event :: actions =>
    (if connected then [event] else []) ++ heard q next connected actions
  | next, connected, .take _ :: actions => heard q next connected actions
  | next, connected, .disconnect q' :: actions => heard q next (connected && q' != q) actions

/-- **Nothing is lost, and nothing comes twice.**  What has been taken out of a queue, and what waits
in it, are together the events that were broadcast while it was connected, in their order. -/
theorem given_run (s : Listeners ε) (q : Nat) (actions : List (Action ε)) :
    (run step s actions).given q =
      s.given q ++ heard q s.hub.next (decide (q ∈ s.hub.queues)) actions := by
  induction actions generalizing s with
  | nil => exact (List.append_nil _).symm
  | cons action actions ih =>
    rw [run_cons, ih, given_step, List.append_assoc]
    congr 1
    cases action with
    | connect =>
      have hconnected : (decide (q ∈ s.hub.queues) || s.hub.next == q) =
          decide (q ∈ (s.step .connect).hub.queues) := by
        rw [Bool.eq_iff_iff, Bool.or_eq_true, beq_iff_eq, decide_eq_true_iff, decide_eq_true_iff]
        exact (or_comm.trans (or_congr_left eq_comm)).trans List.mem_cons.symm
      rw [heard, hconnected, List.nil_append]
      rfl
    | broadcast event =>
      have hqueues : (s.step (.broadcast event)).hub.queues = s.hub.queues := rfl
      have hnext : (s.step (.broadcast event)).hub.next = s.hub.next := rfl
      rw [heard, hqueues, hnext]
      simp only [decide_eq_true_eq]
    | take q' =>
      rw [heard, List.nil_append]
      obtain ⟨-, hsame⟩ | ⟨_, _, -, hqueues, hnext, -, -⟩ := step_take_cases s q'
      · rw [hsame]
      · rw [hqueues, hnext]
    | disconnect q' =>
      have hconnected : (decide (q ∈ s.hub.queues) && q' != q) =
          decide (q ∈ (s.step (.disconnect q')).hub.queues) := by
        rw [Bool.eq_iff_iff, Bool.and_eq_true, bne_iff_ne, decide_eq_true_iff, decide_eq_true_iff,
          ne_comm]
        exact Hub.mem_queues_disconnect.symm
      rw [heard, hconnected, List.nil_append]
      rfl

theorem given_of_le (h : s.hub.next ≤ q) : s.given q = [] := by
  rw [given, s.taken_of_le q h, s.hub.items_of_le q h]
  rfl

/-- The events that are broadcast in a history. -/
def broadcasts (actions : List (Action ε)) : List ε :=
  actions.filterMap fun
    | .broadcast event => some event
    | _ => none

/-- Whoever stays connected hears everything. -/
theorem heard_of_stays {next : Nat} (h : ∀ action ∈ actions, ∀ q', action = .disconnect q' → q' ≠ q) :
    heard q next true actions = broadcasts actions := by
  induction actions generalizing next with
  | nil => rfl
  | cons action actions ih =>
    obtain ⟨hfirst, hrest⟩ := List.forall_mem_cons.1 h
    cases action with
    | connect => exact ih hrest
    | broadcast event => exact congrArg (event :: ·) (ih hrest)
    | take q' => exact ih hrest
    | disconnect q' =>
      rw [heard, Bool.true_and, bne_iff_ne.2 (hfirst q' rfl)]
      exact ih hrest

/-- Whoever has left hears nothing, since no other queue is ever given its name. -/
theorem heard_of_left {next : Nat} (h : q < next) : heard q next false actions = [] := by
  induction actions generalizing next with
  | nil => rfl
  | cons action actions ih =>
    cases action with
    | connect =>
      rw [heard, Bool.false_or, beq_eq_false_iff_ne.2 (Nat.ne_of_gt h)]
      exact ih (Nat.lt_succ_of_lt h)
    | broadcast event => exact ih h
    | take q' => exact ih h
    | disconnect q' => exact ih h

/-- **Who connects and stays** is given everything that is broadcast from then on. -/
theorem given_of_connected (s : Listeners ε)
    (h : .disconnect s.hub.next ∉ actions) :
    (run step (s.step .connect) actions).given s.hub.next = broadcasts actions := by
  have hmem : s.hub.next ∈ (s.step .connect).hub.queues := List.mem_cons_self
  have hnil : (s.step .connect).given s.hub.next = [] := given_of_le (s := s) (Nat.le_refl _)
  rw [given_run, hnil, decide_eq_true hmem, List.nil_append]
  exact heard_of_stays fun action haction q' heq hq ↦ h (hq ▸ heq ▸ haction)

/-- **Who has disconnected** is given nothing any more. -/
theorem given_of_disconnected (h : q < s.hub.next) :
    (run step s (.disconnect q :: actions)).given q = s.given q := by
  rw [given_run, heard, bne_self_eq_false, Bool.and_false, heard_of_left h, List.append_nil]

/-- Taking as often as something waits empties the queue. -/
theorem hub_items_run_takes (s : Listeners ε) (q : Nat) :
    (run step s (List.replicate (s.hub.items q).length (.take q))).hub.items q = [] := by
  generalize hitems : s.hub.items q = items
  induction items generalizing s with
  | nil => exact hitems
  | cons event items ih =>
    rw [List.length_cons, List.replicate_succ, run_cons]
    refine ih _ ?_
    obtain ⟨hnil, -⟩ | ⟨_, _, hcons, -, -, hitems', -⟩ := step_take_cases s q
    · cases hnil.symm.trans hitems
    · cases hcons.symm.trans hitems
      rw [hitems', Function.update_self]

/-- **Who takes as often as something waits** has taken everything it was given. -/
theorem taken_run_takes (s : Listeners ε) (q : Nat) :
    (run step s (List.replicate (s.hub.items q).length (.take q))).taken q = s.given q := by
  have hgiven : ∀ n, (run step s (List.replicate n (.take q))).given q = s.given q := by
    intro n
    induction n generalizing s with
    | zero => rfl
    | succ n ih => rw [List.replicate_succ, run_cons, ih, given_step_take]
  rw [← hgiven (s.hub.items q).length, given, hub_items_run_takes, List.append_nil]

end Listeners

/-! ## Systems that publish

Where the listeners are a part of a larger state, a step of the larger system amounts to some
actions on them. -/

section Publisher

variable {σ ι : Type} (step : σ → ι → σ) (actions : σ → ι → List (Action ε))

/-- What a history of the larger system does to its listeners. -/
def history : σ → List ι → List (Action ε)
  | _, [] => []
  | s, i :: is => actions s i ++ history (step s i) is

variable {step actions} (listeners : σ → Listeners ε) {s opened : σ} {is : List ι}

theorem listeners_run
    (h : ∀ s i, listeners (step s i) = run Listeners.step (listeners s) (actions s i)) (s : σ)
    (is : List ι) : listeners (run step s is) =
      run Listeners.step (listeners s) (history step actions s is) := by
  induction is generalizing s with
  | nil => rfl
  | cons i is ih => rw [run_cons, ih, h, history, run_append]

theorem mem_history {action : Action ε} (h : action ∈ history step actions s is) :
    ∃ i ∈ is, ∃ t, action ∈ actions t i := by
  induction is generalizing s with
  | nil => exact absurd h List.not_mem_nil
  | cons i is ih =>
    rcases List.mem_append.1 h with h | h
    · exact ⟨i, List.mem_cons_self, s, h⟩
    · obtain ⟨j, hj, t, ht⟩ := ih h
      exact ⟨j, List.mem_cons_of_mem _ hj, t, ht⟩

/-- **A session**: it is given what the system broadcasts while it is open. -/
theorem given_of_session
    (h : ∀ s i, listeners (step s i) = run Listeners.step (listeners s) (actions s i))
    (hopen : listeners opened = (listeners s).step .connect)
    (hstays : ∀ i ∈ is, ∀ t, .disconnect (listeners s).hub.next ∉ actions t i) :
    (listeners (run step opened is)).given (listeners s).hub.next =
      Listeners.broadcasts (history step actions opened is) := by
  rw [listeners_run listeners h, hopen]
  refine Listeners.given_of_connected (listeners s) fun hmem ↦ ?_
  obtain ⟨i, hi, t, ht⟩ := mem_history hmem
  exact hstays i hi t ht

/-- **A session that is closed** keeps what it was given, and is given nothing more. -/
theorem given_of_closed {i : ι} {q : Nat}
    (h : ∀ s i, listeners (step s i) = run Listeners.step (listeners s) (actions s i))
    (hclose : actions s i = [.disconnect q]) (hq : q < (listeners s).hub.next) :
    (listeners (run step s (i :: is))).given q = (listeners s).given q := by
  rw [listeners_run listeners h, history, hclose]
  exact Listeners.given_of_disconnected hq

theorem lt_next_run_of_open {q : Nat}
    (h : ∀ s i, listeners (step s i) = run Listeners.step (listeners s) (actions s i))
    (hq : q < (listeners s).hub.next) : q < (listeners (run step s is)).hub.next := by
  rw [listeners_run listeners h]
  exact Listeners.lt_next_run hq

/-- A session that yields as often as something waits has yielded everything it was given. -/
theorem taken_of_yields {i : ι} {q : Nat} (h : ∀ s, listeners (step s i) = (listeners s).step (.take q)) (s : σ) :
    (listeners (run step s (List.replicate ((listeners s).hub.items q).length i))).taken q =
      (listeners s).given q := by
  have hrun : ∀ n s, listeners (run step s (List.replicate n i)) =
      run Listeners.step (listeners s) (List.replicate n (.take q)) := by
    intro n
    induction n with
    | zero => intro s; rfl
    | succ n ih =>
      intro s
      rw [List.replicate_succ, List.replicate_succ, run_cons, run_cons, ih, h]
  rw [hrun, Listeners.taken_run_takes]

end Publisher

end Broadcast

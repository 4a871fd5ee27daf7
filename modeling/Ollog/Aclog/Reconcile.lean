import Ollog.Aclog.Manager

/-!
# Reconciling reaches what is configured

While `reconcile` awaits something, tasks that have been asked to cancel may end, and perhaps others
too.  What it does to the tasks is kept in an account (`TaskAccount`): a task that is managed has been
touched by nobody, and one that was managed and is not any more has ended.  Stopping a bridge keeps
the account (`wp_stopBridge`), and so does starting one.  At the end of `reconcile` the keys are those
of the configured bridges, and the account says what has become of the tasks.
-/

set_option autoImplicit false

namespace Ollog

open Coroutine Coro OrderedDict

/-! ## What may happen to a task -/

/-- A task that runs and has not been asked to cancel. -/
def BridgeTask.Live (t : BridgeTask) : Prop := t.ending = none ∧ t.cancelling = 0

/-- A task that has been cancelled, or has finished normally. -/
def BridgeTask.Ended (t : BridgeTask) : Prop :=
  t.ending = some .finished ∨ t.ending = some .cancelled

/-- What may become of a task while `reconcile` awaits something; `own` says whether tasks may end
that nobody has asked to. -/
inductive TaskMoves (own : Prop) (t : BridgeTask) : BridgeTask → Prop where
  | stays : TaskMoves own t t
  | finishes (hending : t.ending = none) (hwhy : own ∨ t.cancelling ≠ 0) :
    TaskMoves own t { t with ending := some .finished }
  | cancels (hending : t.ending = none) (hwhy : t.cancelling ≠ 0) :
    TaskMoves own t { t with ending := some .cancelled }

/-- A task that nobody has asked to cancel, some time later. -/
def Alone (own : Prop) (t t' : BridgeTask) : Prop :=
  t' = t ∨ own ∧ t.Live ∧ t' = { t with ending := some .finished }

/-- The turn of the others. -/
structure Turn (own : Prop) (s s' : ManagerState) : Prop where
  bridges : s'.bridges = s.bridges
  length : s'.tasks.length = s.tasks.length
  tasks : ∀ {i : Nat} {t}, s.tasks[i]? = some t → ∃ t', s'.tasks[i]? = some t' ∧ TaskMoves own t t'

/-- What is answered to a `reconcile` that nobody cancels. -/
def managerAnswers (users : List BridgeOwner) :
    (o : Awaitable) → ManagerState → Except AsyncErr o.Response → Prop
  | .findUsers, _, r => r = .ok users
  | .appLog _, _, r => r = .ok ()
  | .join i, s, r => ∃ t ending, s.tasks[i]? = some t ∧ t.ending = some ending ∧ r = ending.result
  | .sleep, _, r => r = .ok ()

/-- The tasks, and the users in the database. -/
def managerSurroundings (own : Prop) (users : List BridgeOwner) :
    Surroundings ManagerState AsyncErr Awaitable.Response where
  moves := Turn own
  answers := managerAnswers users

variable {own : Prop} {users : List BridgeOwner} {s₀ s s' : ManagerState} {t t' t'' : BridgeTask}
  {key : String} {managed : ManagedBridge} {w : Option Nat}

theorem Turn.refl (s : ManagerState) : Turn own s s := ⟨rfl, rfl, fun h ↦ ⟨_, h, .stays⟩⟩

/-- A task nobody has asked to cancel stays one. -/
theorem Alone.moves (h : Alone own t t') (ht : t.Live ∨ t.Ended) (hmoves : TaskMoves own t' t'') :
    Alone own t t'' := by
  obtain rfl | ⟨hown, hlive, rfl⟩ := h
  · cases hmoves with
    | stays => exact .inl rfl
    | finishes hending hwhy =>
      obtain hlive | hended := ht
      · exact .inr ⟨hwhy.resolve_right fun hne ↦ hne hlive.2, hlive, rfl⟩
      · rw [BridgeTask.Ended, hending] at hended
        rcases hended with hended | hended <;> cases hended
    | cancels hending hwhy =>
      obtain hlive | hended := ht
      · exact absurd hlive.2 hwhy
      · rw [BridgeTask.Ended, hending] at hended
        rcases hended with hended | hended <;> cases hended
  · cases hmoves with
    | stays => exact .inr ⟨hown, hlive, rfl⟩
    | finishes hending => cases hending
    | cancels hending => cases hending

/-- What the tasks have been started with. -/
def ManagerState.configs (s : ManagerState) : List ACLogBridgeRuntimeConfig :=
  s.tasks.map (·.config)

theorem TaskMoves.config_eq (h : TaskMoves own t t') : t'.config = t.config := by
  cases h <;> rfl

theorem Turn.configs_eq (h : Turn own s s') : s'.configs = s.configs := by
  refine List.ext_getElem? fun i ↦ ?_
  rw [ManagerState.configs, ManagerState.configs, List.getElem?_map, List.getElem?_map]
  cases ht : s.tasks[i]? with
  | none =>
    rw [List.getElem?_eq_none_iff] at ht
    rw [List.getElem?_eq_none_iff.2 (h.length ▸ ht)]
  | some t =>
    obtain ⟨t', ht', hmoves⟩ := h.tasks ht
    rw [ht', Option.map_some, Option.map_some, hmoves.config_eq]

theorem configs_cancel (s : ManagerState) (i : Nat) : (s.modifyTask i .cancel).configs = s.configs := by
  refine List.ext_getElem? fun j ↦ ?_
  rw [ManagerState.configs, ManagerState.configs, List.getElem?_map, List.getElem?_map,
    ManagerState.modifyTask, List.getElem?_modify]
  cases s.tasks[j]? with
  | none => rfl
  | some t =>
    show some _ = some _
    dsimp only
    split
    · rw [BridgeTask.cancel]
      split <;> rfl
    · rfl

theorem configs_startBridge (s : ManagerState) (key : String) (signature : BridgeSignature)
    (config : ACLogBridgeRuntimeConfig) :
    (s.startBridge key signature config).configs = s.configs ++ [config] :=
  List.map_append

/-! ## The account of the tasks -/

/-- What a task that is managed was, when nobody had touched it yet: one that was managed under the
same key before, or a new one. -/
inductive Origin (s₀ : ManagerState) (key : String) (managed : ManagedBridge) (t : BridgeTask) :
    Prop where
  | kept (hmanaged : s₀.bridges.get key = some managed) (htask : s₀.tasks[managed.task]? = some t)
  | started (hnew : s₀.tasks.length ≤ managed.task) (hfresh : t = { config := t.config })

/-- What has become of a task that is not managed any more. -/
def LetGo (own : Prop) (s₀ : ManagerState) (i : Nat) (t : BridgeTask) : Prop :=
  (∀ t₀, s₀.tasks[i]? = some t₀ → t₀.Live) → own ∨ 1 ≤ t.cancelling

/-- The account of the tasks since `s₀`; `w` is one that is being awaited after it has been asked to
cancel. -/
structure TaskAccount (own : Prop) (w : Option Nat) (s₀ s : ManagerState) : Prop where
  length_le : s₀.tasks.length ≤ s.tasks.length
  managed : ∀ {key managed}, s.bridges.get key = some managed → ∃ t t', Origin s₀ key managed t ∧
    (t.Live ∨ t.Ended) ∧ s.tasks[managed.task]? = some t' ∧ Alone own t t'
  dropped : ∀ {i}, i < s.tasks.length →
    (s₀.tasks.length ≤ i ∨ ∃ key managed, s₀.bridges.get key = some managed ∧ managed.task = i) →
    (∃ key managed, s.bridges.get key = some managed ∧ managed.task = i) ∨
      ∃ t, s.tasks[i]? = some t ∧ (t.Ended ∨ w = some i ∧ t.ending = none ∧ t.cancelling ≠ 0) ∧
        LetGo own s₀ i t

/-- Tasks that are managed are live, cancelled or normally finished. -/
def ManagerState.Orderly (s : ManagerState) : Prop :=
  ∀ key managed t, s.bridges.get key = some managed → s.tasks[managed.task]? = some t →
    t.Live ∨ t.Ended

theorem exists_task (h : s.bridges.get key = some managed) : ∃ t, s.tasks[managed.task]? = some t :=
  ⟨_, List.getElem?_eq_getElem (s.created h)⟩

theorem TaskAccount.refl (h : s.Orderly) : TaskAccount own none s s where
  length_le := Nat.le_refl _
  managed hmanaged := by
    obtain ⟨t, ht⟩ := exists_task hmanaged
    exact ⟨t, t, .kept hmanaged ht, h _ _ _ hmanaged ht, ht, .inl rfl⟩
  dropped hi h := by
    obtain h | h := h
    · exact absurd hi (Nat.not_lt.2 h)
    · exact .inl h

/-- The turn of the others keeps the account. -/
theorem TaskAccount.turn (h : TaskAccount own w s₀ s) (hturn : Turn own s s') : TaskAccount own w s₀ s' where
  length_le := hturn.length ▸ h.length_le
  managed hmanaged := by
    rw [hturn.bridges] at hmanaged
    obtain ⟨t, t', horigin, hsound, ht', halone⟩ := h.managed hmanaged
    obtain ⟨t'', ht'', hmoves⟩ := hturn.tasks ht'
    exact ⟨t, t'', horigin, hsound, ht'', halone.moves hsound hmoves⟩
  dropped hi hold := by
    rw [hturn.length] at hi
    rw [hturn.bridges]
    obtain hmanaged | ⟨t, ht, hended, hasked⟩ := h.dropped hi hold
    · exact .inl hmanaged
    · obtain ⟨t', ht', hmoves⟩ := hturn.tasks ht
      refine .inr ⟨t', ht', ?_, ?_⟩
      · cases hmoves with
        | stays => exact hended
        | finishes => exact .inl (.inl rfl)
        | cancels => exact .inl (.inr rfl)
      · cases hmoves <;> exact hasked

/-- A bridge that is not managed may be started. -/
theorem TaskAccount.startBridge (h : TaskAccount own none s₀ s) (hkey : s.bridges.get key = none)
    (signature : BridgeSignature) (config : ACLogBridgeRuntimeConfig) :
    TaskAccount own none s₀ (s.startBridge key signature config) where
  length_le := by
    rw [ManagerState.startBridge, List.length_append]
    exact Nat.le_add_right_of_le h.length_le
  managed {key' managed} hmanaged := by
    rw [ManagerState.startBridge, get_set] at hmanaged
    rw [ManagerState.startBridge]
    split at hmanaged
    · cases hmanaged
      refine ⟨{ config }, { config }, .started h.length_le rfl, .inl ⟨rfl, rfl⟩, ?_, .inl rfl⟩
      rw [List.getElem?_append_right (Nat.le_refl _), Nat.sub_self]
      rfl
    · obtain ⟨t, t', horigin, hsound, ht', halone⟩ := h.managed hmanaged
      refine ⟨t, t', horigin, hsound, ?_, halone⟩
      rw [List.getElem?_append_left (s.created hmanaged), ht']
  dropped {i} hi hold := by
    rw [ManagerState.startBridge, List.length_append, List.length_singleton] at hi
    rw [ManagerState.startBridge]
    obtain hi | rfl : i < s.tasks.length ∨ i = s.tasks.length := by omega
    · obtain ⟨key', managed, hmanaged, htask⟩ | ⟨t, ht, hrest⟩ := h.dropped hi hold
      · refine .inl ⟨key', managed, ?_, htask⟩
        rw [get_set, if_neg, hmanaged]
        rintro rfl
        exact nomatch hkey.symm.trans hmanaged
      · exact .inr ⟨t, by rw [List.getElem?_append_left hi, ht], hrest⟩
    · exact .inl ⟨key, _, by rw [get_set, if_pos rfl], rfl⟩

theorem letGo_of_alone (ht : Origin s₀ key managed t) (halone : Alone own t t')
    (hended : t'.Ended) : LetGo own s₀ managed.task t' := by
  intro hlive
  obtain rfl | ⟨hown, -⟩ := halone
  · cases ht with
    | kept hmanaged htask =>
      rw [BridgeTask.Ended, (hlive t' htask).1] at hended
      rcases hended with hended | hended <;> cases hended
    | started hnew hfresh =>
      rw [BridgeTask.Ended, hfresh] at hended
      rcases hended with hended | hended <;> cases hended
  · exact .inl hown

/-- A bridge is let go when its task is asked to cancel. -/
theorem TaskAccount.pop (h : TaskAccount own none s₀ s) (hkey : s.bridges.get key = some managed) :
    TaskAccount own (some managed.task) s₀ ((s.pop key).modifyTask managed.task .cancel) where
  length_le := by
    rw [ManagerState.modifyTask, List.length_modify]
    exact h.length_le
  managed {key' managed'} hmanaged := by
    have hget : (s.bridges.erase key).get key' = some managed' := hmanaged
    rw [get_erase] at hget
    split at hget
    · cases hget
    rename_i hne
    obtain ⟨t, t', horigin, hsound, ht', halone⟩ := h.managed hget
    refine ⟨t, t', horigin, hsound, ?_, halone⟩
    rw [ManagerState.modifyTask, List.getElem?_modify_ne _ _ fun heq ↦ hne (s.unshared hget hkey heq.symm)]
    exact ht'
  dropped {i} hi hold := by
    rw [ManagerState.modifyTask, List.length_modify] at hi
    by_cases hi' : managed.task = i
    · subst hi'
      obtain ⟨t, t', horigin, hsound, ht', halone⟩ := h.managed hkey
      refine .inr ⟨t'.cancel, ?_, ?_⟩
      · rw [ManagerState.modifyTask, List.getElem?_modify_eq]
        show (s.tasks[managed.task]?).map _ = _
        rw [ht', Option.map_some]
      by_cases hended : t'.ending = none
      · have hcancel : t'.cancel = { t' with cancelling := t'.cancelling + 1 } := by
          rw [BridgeTask.cancel, hended]
          rfl
        rw [hcancel]
        exact ⟨.inr ⟨rfl, hended, Nat.succ_ne_zero _⟩, fun _ ↦ .inr (Nat.le_add_left ..)⟩
      · have hsome : t'.ending.isSome = true := Option.isSome_iff_ne_none.2 hended
        have hcancel : t'.cancel = t' := by rw [BridgeTask.cancel, if_pos hsome]
        rw [hcancel]
        have hended' : t'.Ended := by
          obtain rfl | ⟨-, -, rfl⟩ := halone
          · exact hsound.resolve_left fun hlive ↦ hended hlive.1
          · exact .inl rfl
        exact ⟨.inl hended', letGo_of_alone horigin halone hended'⟩
    · have hget : ((s.pop key).modifyTask managed.task .cancel).tasks[i]? = s.tasks[i]? := by
        rw [ManagerState.modifyTask, List.getElem?_modify_ne _ _ hi']
        rfl
      rw [hget]
      obtain ⟨key', managed', hmanaged, htask⟩ | ⟨t, ht, hended, hasked⟩ := h.dropped hi hold
      · refine .inl ⟨key', managed', ?_, htask⟩
        show (s.bridges.erase key).get key' = some managed'
        rw [get_erase, if_neg, hmanaged]
        rintro rfl
        cases hkey.symm.trans hmanaged
        exact hi' htask
      · exact .inr ⟨t, ht, .inl (hended.resolve_right fun hw ↦ nomatch hw.1), hasked⟩

/-- A task that has ended is not awaited any more. -/
theorem TaskAccount.joined {i : Nat} (h : TaskAccount own (some i) s₀ s) (ht : s.tasks[i]? = some t)
    (hending : t.ending ≠ none) : TaskAccount own none s₀ s where
  length_le := h.length_le
  managed := h.managed
  dropped {j} hj hold := by
    obtain hmanaged | ⟨t', ht', hended, hasked⟩ := h.dropped hj hold
    · exact .inl hmanaged
    · refine .inr ⟨t', ht', .inl (hended.resolve_right ?_), hasked⟩
      rintro ⟨hij, hnone, -⟩
      cases hij
      cases ht.symm.trans ht'
      exact hending hnone

/-! ## Stopping a bridge -/

theorem wp_appLog {Q : Unit → ManagerState → Prop} {E : AsyncErr → ManagerState → Prop}
    {eventType : String} (hQ : ∀ s', Turn own s s' → Q () s') :
    wp (managerSurroundings own users) (appLog eventType) Q E s :=
  wp_awaiting ⟨s, .ok (), .refl s, rfl⟩ (fun s' _ hturn _ ↦ hQ s' hturn) fun _ _ _ h ↦ nomatch h

/-- A task that has been asked to cancel may do so. -/
theorem exists_turn_cancelled {i : Nat} (ht : s.tasks[i]? = some t) (hnone : t.ending = none)
    (hasked : t.cancelling ≠ 0) :
    ∃ s', Turn own s s' ∧ s'.tasks[i]? = some { t with ending := some .cancelled } := by
  refine ⟨s.modifyTask i fun _ ↦ { t with ending := some .cancelled }, ⟨rfl, List.length_modify ..,
    fun {j t'} ht' ↦ ?_⟩, ?_⟩
  · by_cases hj : i = j
    · subst hj
      cases ht.symm.trans ht'
      refine ⟨_, ?_, .cancels hnone hasked⟩
      rw [ManagerState.modifyTask, List.getElem?_modify_eq, ht]
      rfl
    · exact ⟨t', by rw [ManagerState.modifyTask, List.getElem?_modify_ne _ _ hj, ht'], .stays⟩
  · rw [ManagerState.modifyTask, List.getElem?_modify_eq, ht]
    rfl

/-- A task does not fail while `reconcile` awaits something. -/
theorem ended_of_turn {i : Nat} (hturn : Turn own s s') (ht : s.tasks[i]? = some t)
    (hnone : t.ending = none) (ht' : s'.tasks[i]? = some t') (hending : t'.ending ≠ none) :
    t'.Ended := by
  obtain ⟨t'', ht'', hmoves⟩ := hturn.tasks ht
  cases ht'.symm.trans ht''
  cases hmoves with
  | stays => exact absurd hnone hending
  | finishes => exact .inl rfl
  | cancels => exact .inr rfl

/-- A task that has been let go can be awaited. -/
theorem wp_awaitTask {Q : Unit → ManagerState → Prop} {E : AsyncErr → ManagerState → Prop} {i : Nat}
    (ht : s.tasks[i]? = some t) (hasked : t.Ended ∨ t.ending = none ∧ t.cancelling ≠ 0)
    (hQ : ∀ s' t', Turn own s s' → s'.tasks[i]? = some t' → t'.Ended → Q () s' ∧ E .cancelled s') :
    wp (managerSurroundings own users) (awaitTask i) Q E s := by
  rw [awaitTask, wp_bind, wp_state, ht, Option.bind_some]
  obtain hended | ⟨hnone, hcancelling⟩ := hasked
  · obtain hending | hending := id hended <;> rw [hending]
    · exact (hQ s t (.refl s) ht hended).1
    · exact (hQ s t (.refl s) ht hended).2
  · rw [hnone]
    obtain ⟨s₁, hturn₁, ht₁⟩ := @exists_turn_cancelled own _ _ _ ht hnone hcancelling
    refine wp_awaiting ⟨s₁, .error .cancelled, hturn₁, _, .cancelled, ht₁, rfl, rfl⟩ ?_ ?_
    · rintro s' - hturn ⟨t', ending, ht', hending, -⟩
      refine (hQ s' t' hturn ht' (ended_of_turn hturn ht hnone ht' ?_)).1
      rw [hending]
      exact nofun
    · rintro s' e hturn ⟨t', ending, ht', hending, he⟩
      have hended := ended_of_turn hturn ht hnone ht' (by rw [hending]; exact nofun)
      rw [BridgeTask.Ended, hending] at hended
      rcases hended with hended | hended <;> cases hended <;> cases he
      exact (hQ s' t' hturn ht' (.inr hending)).2

/-- **Stopping a bridge** ends its task and keeps the account. -/
theorem wp_stopBridge (h : TaskAccount own none s₀ s) :
    wp (managerSurroundings own users) (stopBridge key)
      (fun _ s' ↦ TaskAccount own none s₀ s' ∧ s'.configs = s.configs ∧ ∀ key', s'.bridges.get key' =
        if key' = key then none else s.bridges.get key')
      (fun _ _ ↦ False) s := by
  rw [stopBridge, wp_bind, wp_state]
  split
  · rename_i hnone
    refine ⟨h, rfl, fun key' ↦ ?_⟩
    split
    · rename_i heq
      rw [heq, hnone]
    · rfl
  · rename_i managed hmanaged
    have hpop := h.pop hmanaged
    have hget : ∀ key', ((s.pop key).modifyTask managed.task .cancel).bridges.get key' =
        if key' = key then none else s.bridges.get key' := fun key' ↦ get_erase ..
    have hi : managed.task < ((s.pop key).modifyTask managed.task .cancel).tasks.length := by
      rw [ManagerState.modifyTask, List.length_modify]
      exact s.created hmanaged
    have hold : s₀.tasks.length ≤ managed.task ∨
        ∃ key managed', s₀.bridges.get key = some managed' ∧ managed'.task = managed.task := by
      obtain ⟨t, t', horigin, -⟩ := h.managed hmanaged
      cases horigin with
      | kept hmanaged₀ => exact .inr ⟨_, _, hmanaged₀, rfl⟩
      | started hnew => exact .inl hnew
    obtain ⟨key', managed', hmanaged', htask⟩ | ⟨t, ht, hasked, -⟩ := hpop.dropped hi hold
    · rw [hget] at hmanaged'
      split at hmanaged'
      · cases hmanaged'
      · rename_i hne
        exact absurd (s.unshared hmanaged' hmanaged htask) hne
    rw [wp_bind, wp_modify, wp_bind, wp_catching]
    refine wp_awaitTask ht (hasked.imp_right fun hw ↦ hw.2) fun s' t' hturn ht' hended ↦ ?_
    have hending : t'.ending ≠ none := by
      rintro hnone
      rw [BridgeTask.Ended, hnone] at hended
      rcases hended with hended | hended <;> cases hended
    have hjoined := (hpop.turn hturn).joined ht' hending
    have hdone : wp (managerSurroundings own users) (appLog "bridge_task_stopped")
        (fun _ s' ↦ TaskAccount own none s₀ s' ∧ s'.configs = s.configs ∧
          ∀ key', s'.bridges.get key' = if key' = key then none else s.bridges.get key')
        (fun _ _ ↦ False) s' := by
      refine wp_appLog fun s'' hturn' ↦ ⟨hjoined.turn hturn', ?_, fun key' ↦ ?_⟩
      · rw [hturn'.configs_eq, hturn.configs_eq, configs_cancel]
        rfl
      · rw [hturn'.bridges, hturn.bridges, hget]
    exact ⟨hdone, hdone⟩

/-! ## Serving a bridge -/

/-- What a bridge that is configured gets: a task that was live and is kept, or a new one. -/
structure Served (own : Prop) (s₀ s : ManagerState) (key : String)
    (config : ACLogBridgeRuntimeConfig) (signature : BridgeSignature)
    (managed : ManagedBridge) : Prop where
  managed_eq : s.bridges.get key = some managed
  signature_eq : managed.signature = signature
  kept_or_new : (s₀.bridges.get key = some managed ∧
      ∃ t, s₀.tasks[managed.task]? = some t ∧ t.Live) ∨
    s₀.tasks.length ≤ managed.task ∧ s.configs[managed.task]? = some config
  untouched : ¬ own → ∀ managed₀ t, s₀.bridges.get key = some managed₀ →
    s₀.tasks[managed₀.task]? = some t → t.Live → managed₀.signature = signature → managed = managed₀

/-- What serves a bridge does so as long as it is managed. -/
theorem Served.mono {config : ACLogBridgeRuntimeConfig} {signature : BridgeSignature}
    (h : Served own s₀ s key config signature managed)
    (hmanaged : s'.bridges.get key = s.bridges.get key) (hconfigs : s.configs <+: s'.configs) :
    Served own s₀ s' key config signature managed where
  managed_eq := hmanaged.trans h.managed_eq
  signature_eq := h.signature_eq
  kept_or_new := by
    refine h.kept_or_new.imp_right fun ⟨hnew, hconfig⟩ ↦ ⟨hnew, ?_⟩
    obtain ⟨rest, hrest⟩ := hconfigs
    obtain ⟨hlt, -⟩ := List.getElem?_eq_some_iff.1 hconfig
    rw [← hrest, List.getElem?_append_left hlt, hconfig]
  untouched := h.untouched

/-- **A bridge that is configured** is served, and no other one is touched. -/
theorem wp_ensureBridge {config : ACLogBridgeRuntimeConfig} {signature : BridgeSignature}
    (h : TaskAccount own none s₀ s) (hkey : s.bridges.get key = s₀.bridges.get key) :
    wp (managerSurroundings own users) (ensureBridge (key, config, signature))
      (fun _ s' ↦ TaskAccount own none s₀ s' ∧ s.configs <+: s'.configs ∧
        (∀ key', key' ≠ key → s'.bridges.get key' = s.bridges.get key') ∧
        ∃ managed, Served own s₀ s' key config signature managed)
      (fun _ _ ↦ False) s := by
  have hcreate : ∀ s₁ : ManagerState, TaskAccount own none s₀ s₁ → s₁.configs = s.configs →
      (∀ key', s₁.bridges.get key' = if key' = key then none else s.bridges.get key') →
      (¬ own → ∀ managed t, s₀.bridges.get key = some managed → s₀.tasks[managed.task]? = some t →
        t.Live → managed.signature ≠ signature) →
      wp (managerSurroundings own users) (createBridge key config signature)
        (fun _ s' ↦ TaskAccount own none s₀ s' ∧ s.configs <+: s'.configs ∧
          (∀ key', key' ≠ key → s'.bridges.get key' = s.bridges.get key') ∧
          ∃ managed, Served own s₀ s' key config signature managed) (fun _ _ ↦ False) s₁ := by
    intro s₁ haccount hconfigs hget hchanged
    have hnone : s₁.bridges.get key = none := by rw [hget, if_pos rfl]
    rw [createBridge, wp_bind, wp_modify]
    refine wp_appLog fun s' hturn ↦ ⟨(haccount.startBridge hnone signature config).turn hturn, ?_,
      fun key' hne ↦ ?_, ⟨signature, s₁.tasks.length⟩, ?_, rfl, .inr ⟨haccount.length_le, ?_⟩, ?_⟩
    · rw [hturn.configs_eq, configs_startBridge, hconfigs]
      exact List.prefix_append ..
    · rw [hturn.bridges, ManagerState.startBridge, get_set, if_neg hne, hget, if_neg hne]
    · rw [hturn.bridges, ManagerState.startBridge, get_set, if_pos rfl]
    · rw [hturn.configs_eq, configs_startBridge, List.getElem?_append_right, ManagerState.configs,
        List.length_map, Nat.sub_self]
      · rfl
      · rw [ManagerState.configs, List.length_map]
    · intro hown managed₀ t hmanaged₀ ht hlive hsignature
      exact absurd hsignature (hchanged hown managed₀ t hmanaged₀ ht hlive)
  rw [ensureBridge, wp_bind, wp_state]
  split
  · rename_i hnone
    refine hcreate s h rfl (fun key' ↦ ?_) fun _ managed t hmanaged ↦ ?_
    · split
      · rename_i heq
        rw [heq, hnone]
      · rfl
    · exact nomatch hmanaged.symm.trans (hkey.symm.trans hnone)
  · rename_i existing hexisting
    obtain ⟨t, t', horigin, hsound, ht', halone⟩ := h.managed hexisting
    have ht : s₀.tasks[existing.task]? = some t := by
      cases horigin with
      | kept _ htask => exact htask
      | started hnew => exact absurd (s₀.created (hkey ▸ hexisting)) (Nat.not_lt.2 hnew)
    have hdone : s.taskDone existing.task = t'.ending.isSome := by rw [ManagerState.taskDone, ht']
    split
    · -- The task is kept.
      rename_i hkeep
      rw [hdone, Option.isSome_eq_false_iff, Option.isNone_iff_eq_none] at hkeep
      refine ⟨h, List.prefix_refl _, fun _ _ ↦ rfl, existing, hexisting, hkeep.2,
        .inl ⟨hkey ▸ hexisting, t, ht, ?_⟩, ?_⟩
      · obtain rfl | ⟨-, hlive, -⟩ := halone
        · refine hsound.resolve_right fun hended ↦ ?_
          rw [BridgeTask.Ended, hkeep.1] at hended
          rcases hended with hended | hended <;> cases hended
        · exact hlive
      · intro _ managed₀ t₀ hmanaged₀ _ _ _
        exact Option.some.inj (hexisting.symm.trans (hkey.trans hmanaged₀))
    · -- The task is replaced.
      rename_i hreplace
      rw [wp_bind]
      refine wp_mono (wp_stopBridge h) (fun _ s₁ ⟨haccount, hconfigs, hget⟩ ↦ ?_) fun _ _ hno ↦ hno
      refine hcreate s₁ haccount hconfigs hget fun hown managed₀ t₀ hmanaged₀ ht₀ hlive hsig ↦ ?_
      cases hexisting.symm.trans (hkey.trans hmanaged₀)
      cases ht.symm.trans ht₀
      obtain rfl | ⟨hown', -⟩ := halone
      · exact hreplace ⟨by rw [hdone, hlive.1]; rfl, hsig⟩
      · exact hown hown'

/-! ## What is configured, under distinct keys -/

/-- A key tells the user and the bridge. -/
theorem bridgeKey_inj {user user' : BridgeOwner} {bridge bridge' : ACLogBridge}
    (h : bridgeKey user bridge = bridgeKey user' bridge') :
    user.id = user'.id ∧ bridge.id = bridge'.id := by
  have hlength : ∀ oid : ObjectId, oid.str.toList.length = 24 := fun oid ↦ by
    rw [ObjectId.str, String.toList_ofList, length_hexChars]
  have hlist := congrArg String.toList h
  simp only [bridgeKey, String.append_assoc, String.toList_append] at hlist
  obtain ⟨huser, hbridge⟩ := List.append_inj hlist ((hlength user.id).trans (hlength user'.id).symm)
  exact ⟨ObjectId.str_injective (String.toList_injective huser),
    String.toList_injective (List.append_cancel_left hbridge)⟩

theorem mem_desiredItems {reconnectSeconds : Nat}
    {item : String × ACLogBridgeRuntimeConfig × BridgeSignature} :
    item ∈ desiredItems reconnectSeconds users ↔ ∃ user ∈ users, user.enabled = true ∧
      ∃ bridge ∈ user.aclogBridges, bridge.enabled = true ∧
        item = (bridgeKey user bridge, runtimeConfig reconnectSeconds user bridge,
          bridge.signature) := by
  simp only [desiredItems, List.mem_flatMap, List.mem_filter, List.mem_map, and_assoc,
    @eq_comm _ _ item]

theorem distinct_desiredItems (reconnectSeconds : Nat)
    (hids : users.Pairwise fun user user' ↦ user.id ≠ user'.id)
    (hbridges : ∀ user ∈ users, user.aclogBridges.Pairwise fun bridge bridge' ↦
      bridge.id ≠ bridge'.id) : Distinct (desiredItems reconnectSeconds users) := by
  rw [Distinct, desiredItems, List.pairwise_flatMap]
  constructor
  · intro user huser
    refine List.pairwise_map.2 (((hbridges user (List.mem_filter.1 huser).1).filter _).imp ?_)
    exact fun hne heq ↦ hne (bridgeKey_inj heq).2
  · refine (hids.filter _).imp fun hne item hitem item' hitem' heq ↦ ?_
    obtain ⟨bridge, -, rfl⟩ := List.mem_map.1 hitem
    obtain ⟨bridge', -, rfl⟩ := List.mem_map.1 hitem'
    exact hne (bridgeKey_inj heq).1

theorem mem_staleKeys {desired : OrderedDict String (ACLogBridgeRuntimeConfig × BridgeSignature)} :
    key ∈ staleKeys s desired ↔ s.bridges.get key ≠ none ∧ desired.get key = none := by
  rw [staleKeys, List.mem_filter, List.mem_eraseDups, Option.isNone_iff_eq_none, List.mem_map, ne_eq,
    get_eq_none_iff (d := s.bridges)]
  refine and_congr_left fun _ ↦ ?_
  push Not
  rfl

/-! ## The two loops -/

/-- The first loop stops what is not configured any more. -/
theorem wp_stopStale {order : SetOrder}
    {desired : OrderedDict String (ACLogBridgeRuntimeConfig × BridgeSignature)}
    (h : TaskAccount own none s₀ s) (hbridges : s.bridges = s₀.bridges) :
    wp (managerSurroundings own users) ((order.order (staleKeys s desired)).forM stopBridge)
      (fun _ s' ↦ TaskAccount own none s₀ s' ∧ ∀ key, s'.bridges.get key =
        if desired.get key = none then none else s₀.bridges.get key)
      (fun _ _ ↦ False) s := by
  have hloop := @wp_forM _ _ _ _ _ (managerSurroundings own users) (fun _ _ ↦ False) s stopBridge
    (fun done s' ↦ TaskAccount own none s₀ s' ∧ ∀ key, s'.bridges.get key =
      if key ∈ done then none else s₀.bridges.get key) (order.order (staleKeys s desired)) ?_ ⟨h, fun key ↦ by rw [hbridges]; rfl⟩
  · refine wp_mono hloop (fun _ s' ⟨haccount, hget⟩ ↦ ⟨haccount, fun key ↦ ?_⟩) fun _ _ hno ↦ hno
    simp only [hget, (order.perm _).mem_iff, mem_staleKeys, hbridges]
    by_cases hdesired : desired.get key = none
    · rw [if_pos hdesired]
      split
      · rfl
      · rename_i hno
        exact not_not.1 fun hsome ↦ hno ⟨hsome, hdesired⟩
    · rw [if_neg hdesired, if_neg fun hboth ↦ hdesired hboth.2]
  · rintro done key todo s' - ⟨haccount, hget⟩
    refine wp_mono (wp_stopBridge haccount) (fun _ s'' ⟨haccount', _, hget'⟩ ↦
      ⟨haccount', fun key' ↦ ?_⟩) fun _ _ hno ↦ hno
    rw [hget', hget]
    simp only [List.mem_append, List.mem_singleton]
    by_cases hkey : key' = key
    · rw [if_pos hkey, if_pos (.inr hkey)]
    · rw [if_neg hkey]
      simp only [hkey, or_false]

/-- The second loop serves every bridge that is configured. -/
theorem wp_ensureDesired
    {desired : OrderedDict String (ACLogBridgeRuntimeConfig × BridgeSignature)}
    (hdistinct : desired.Distinct) (h : TaskAccount own none s₀ s)
    (hget : ∀ key, s.bridges.get key =
      if desired.get key = none then none else s₀.bridges.get key) :
    wp (managerSurroundings own users) (List.forM desired ensureBridge)
      (fun _ s' ↦ TaskAccount own none s₀ s' ∧
        (∀ key, desired.get key = none → s'.bridges.get key = none) ∧
        ∀ item ∈ desired, ∃ managed, Served own s₀ s' item.1 item.2.1 item.2.2 managed)
      (fun _ _ ↦ False) s := by
  have hunique : ∀ item ∈ desired, ∀ item' ∈ desired, item.1 = item'.1 → item = item' := by
    intro item hitem item' hitem' heq
    have hvalue := hdistinct.get_eq_some hitem
    rw [heq, hdistinct.get_eq_some hitem'] at hvalue
    exact Prod.ext heq (Option.some.inj hvalue).symm
  have hloop := @wp_forM _ _ _ _ _ (managerSurroundings own users) (fun _ _ ↦ False) s ensureBridge
    (fun done s' ↦ TaskAccount own none s₀ s' ∧
      (∀ key, desired.get key = none → s'.bridges.get key = none) ∧
      (∀ item ∈ desired, item ∉ done → s'.bridges.get item.1 = s₀.bridges.get item.1) ∧
      ∀ item ∈ done, ∃ managed, Served own s₀ s' item.1 item.2.1 item.2.2 managed) desired ?_
    ⟨h, fun key hkey ↦ by rw [hget, if_pos hkey], fun item hitem _ ↦ ?_,
      fun _ hitem ↦ absurd hitem List.not_mem_nil⟩
  · exact wp_mono hloop (fun _ _ hI ↦ ⟨hI.1, hI.2.1, hI.2.2.2⟩) fun _ _ hno ↦ hno
  · rintro done ⟨key, config, signature⟩ todo s' hsplit ⟨haccount, hnone, hwaiting, hserved⟩
    have hmem : (key, config, signature) ∈ desired := by
      rw [hsplit]
      exact List.mem_append_right _ (List.mem_cons_self ..)
    have hnotdone : ∀ item ∈ done, item.1 ≠ key := by
      rw [Distinct, hsplit, List.pairwise_append] at hdistinct
      exact fun item hitem ↦ hdistinct.2.2 item hitem _ (List.mem_cons_self ..)
    have hkey : s'.bridges.get key = s₀.bridges.get key :=
      hwaiting _ hmem fun hdone ↦ hnotdone _ hdone rfl
    refine wp_mono (wp_ensureBridge haccount hkey)
      (fun _ s'' ⟨haccount', hconfigs, hframe, hserves⟩ ↦ ⟨haccount', ?_, ?_, ?_⟩) fun _ _ hno ↦ hno
    · intro key' hkey'
      rw [hframe key', hnone key' hkey']
      rintro rfl
      exact nomatch hkey'.symm.trans (hdistinct.get_eq_some hmem)
    · intro item hitem hnot
      rw [List.mem_append, List.mem_singleton, not_or] at hnot
      rw [hframe item.1 fun heq ↦ hnot.2 (hunique item hitem _ hmem heq), hwaiting item hitem hnot.1]
    · intro item hitem
      obtain hitem | hitem := List.mem_append.1 hitem
      · obtain ⟨managed, hmanaged⟩ := hserved item hitem
        exact ⟨managed, hmanaged.mono (hframe _ (hnotdone item hitem)) hconfigs⟩
      · obtain rfl := List.mem_singleton.1 hitem
        exact hserves
  · rw [hget, if_neg]
    rw [hdistinct.get_eq_some hitem]
    exact nofun

/-! ## After `reconcile` -/

/-- The manager manages what is configured, and no task it has let go is left running. -/
structure Reconciled (own : Prop) (reconnectSeconds : Nat) (users : List BridgeOwner)
    (s₀ s : ManagerState) : Prop where
  keys : ∀ key, (∃ managed, s.bridges.get key = some managed) ↔
    ∃ user ∈ users, user.enabled = true ∧ ∃ bridge ∈ user.aclogBridges, bridge.enabled = true ∧
      key = bridgeKey user bridge
  served : ∀ user ∈ users, user.enabled = true → ∀ bridge ∈ user.aclogBridges,
    bridge.enabled = true → ∃ managed, Served own s₀ s (bridgeKey user bridge)
      (runtimeConfig reconnectSeconds user bridge) bridge.signature managed ∧
      ∃ t, s.tasks[managed.task]? = some t ∧ (t.Live ∨ own ∧ t.ending = some .finished)
  untouched : ¬ own → ∀ user ∈ users, user.enabled = true → ∀ bridge ∈ user.aclogBridges,
    bridge.enabled = true → ∀ managed t, s₀.bridges.get (bridgeKey user bridge) = some managed →
      s₀.tasks[managed.task]? = some t → t.Live → managed.signature = bridge.signature →
      s.bridges.get (bridgeKey user bridge) = some managed ∧ s.tasks[managed.task]? = some t
  letGo : ∀ i < s.tasks.length,
    (s₀.tasks.length ≤ i ∨ ∃ key managed, s₀.bridges.get key = some managed ∧ managed.task = i) →
    (∃ key managed, s.bridges.get key = some managed ∧ managed.task = i) ∨
      ∃ t, s.tasks[i]? = some t ∧ t.Ended ∧ LetGo own s₀ i t

/-- A task that is managed at the end has not been touched. -/
theorem TaskAccount.alone_of_served {config : ACLogBridgeRuntimeConfig} {signature : BridgeSignature}
    (h : TaskAccount own none s₀ s) (hserved : Served own s₀ s key config signature managed) :
    ∃ t t', Origin s₀ key managed t ∧ t.Live ∧ s.tasks[managed.task]? = some t' ∧
      Alone own t t' := by
  obtain ⟨t, t', horigin, -, ht', halone⟩ := h.managed hserved.managed_eq
  refine ⟨t, t', horigin, ?_, ht', halone⟩
  cases horigin with
  | kept hmanaged htask =>
    obtain ⟨-, t₀, ht₀, hlive⟩ | ⟨hnew, -⟩ := hserved.kept_or_new
    · cases htask.symm.trans ht₀
      exact hlive
    · exact absurd (s₀.created hmanaged) (Nat.not_lt.2 hnew)
  | started hnew hfresh => exact hfresh ▸ ⟨rfl, rfl⟩

/-- **Reconciling reaches exactly the configured bridges**, from every state of the manager, whether
tasks end in the meantime or not. -/
theorem wp_reconcile (own : Prop) (order : SetOrder) (reconnectSeconds : Nat)
    (hids : users.Pairwise fun user user' ↦ user.id ≠ user'.id)
    (hbridges : ∀ user ∈ users, user.aclogBridges.Pairwise fun bridge bridge' ↦
      bridge.id ≠ bridge'.id) (hs : s.Orderly) :
    wp (managerSurroundings own users) (reconcile order reconnectSeconds)
      (fun _ s' ↦ Reconciled own reconnectSeconds users s s') (fun _ _ ↦ False) s := by
  rw [reconcile, wp_bind]
  refine wp_awaiting ⟨s, .ok users, .refl s, rfl⟩ (fun s₁ users' hturn husers ↦ ?_)
    fun _ _ _ hno ↦ nomatch hno
  obtain rfl := Except.ok.inj husers
  have hdistinct := distinct_desiredItems reconnectSeconds hids hbridges
  rw [wp_bind, wp_state, wp_bind]
  refine wp_mono (wp_stopStale ((TaskAccount.refl hs).turn hturn) hturn.bridges)
    (fun _ s₂ ⟨haccount₂, hget₂⟩ ↦ ?_) fun _ _ hno ↦ hno
  refine wp_mono (wp_ensureDesired (distinct_ofItems _) haccount₂ hget₂)
    (fun _ s₃ ⟨haccount, hnone, hserved⟩ ↦ ?_) fun _ _ hno ↦ hno
  have hserves : ∀ user ∈ users', user.enabled = true → ∀ bridge ∈ user.aclogBridges,
      bridge.enabled = true → ∃ managed, Served own s s₃ (bridgeKey user bridge)
        (runtimeConfig reconnectSeconds user bridge) bridge.signature managed := by
    intro user huser henabled bridge hbridge henabled'
    refine hserved (_, _, _) ?_
    rw [desiredBridges, hdistinct.ofItems_eq]
    exact mem_desiredItems.2 ⟨user, huser, henabled, bridge, hbridge, henabled', rfl⟩
  refine ⟨fun key ↦ ⟨fun ⟨managed, hmanaged⟩ ↦ ?_, ?_⟩, ?_, ?_, fun i hi hold ↦ ?_⟩
  · cases hdesired : (desiredBridges reconnectSeconds users').get key with
    | none => exact nomatch (hnone key hdesired).symm.trans hmanaged
    | some value =>
      obtain ⟨user, huser, henabled, bridge, hbridge, henabled', heq⟩ :=
        mem_desiredItems.1 (mem_ofItems (mem_of_get hdesired))
      exact ⟨user, huser, henabled, bridge, hbridge, henabled', congrArg Prod.fst heq⟩
  · rintro ⟨user, huser, henabled, bridge, hbridge, henabled', rfl⟩
    obtain ⟨managed, hmanaged⟩ := hserves user huser henabled bridge hbridge henabled'
    exact ⟨managed, hmanaged.managed_eq⟩
  · intro user huser henabled bridge hbridge henabled'
    obtain ⟨managed, hmanaged⟩ := hserves user huser henabled bridge hbridge henabled'
    obtain ⟨t, t', -, hlive, ht', halone⟩ := haccount.alone_of_served hmanaged
    refine ⟨managed, hmanaged, t', ht', ?_⟩
    obtain rfl | ⟨hown, -, rfl⟩ := halone
    · exact .inl hlive
    · exact .inr ⟨hown, rfl⟩
  · intro hown user huser henabled bridge hbridge henabled' managed₀ t₀ hmanaged₀ ht₀ hlive hsig
    obtain ⟨managed, hmanaged⟩ := hserves user huser henabled bridge hbridge henabled'
    obtain rfl := hmanaged.untouched hown managed₀ t₀ hmanaged₀ ht₀ hlive hsig
    obtain ⟨t, t', horigin, -, ht', halone⟩ := haccount.alone_of_served hmanaged
    obtain rfl : t' = t := halone.resolve_right fun hno ↦ hown hno.1
    refine ⟨hmanaged.managed_eq, ?_⟩
    cases horigin with
    | kept _ htask => rw [ht', ← htask, ht₀]
    | started hnew => exact absurd (s.created hmanaged₀) (Nat.not_lt.2 hnew)
  · obtain hmanaged | ⟨t, ht, hended, hasked⟩ := haccount.dropped hi hold
    · exact .inl hmanaged
    · exact .inr ⟨t, ht, hended.resolve_right (fun hno ↦ nomatch hno.1), hasked⟩

/-- A bridge of a shack. -/
def shackBridge : ACLogBridge where
  id := "b1"
  name := "Shack PC"

/-- A user with that bridge. -/
def shackOwner : BridgeOwner where
  id := ⟨1⟩
  aclogBridges := [shackBridge]

/-- A manager that still runs the bridge of a user who is gone. -/
def staleManager : ManagerState :=
  ManagerState.empty.startBridge (bridgeKey { id := ⟨2⟩ } shackBridge) shackBridge.signature
    (runtimeConfig 5 { id := ⟨2⟩ } shackBridge)

theorem wp_reconcile_staleManager :
    wp (managerSurroundings False [shackOwner]) (reconcile ⟨id, fun _ ↦ .refl _⟩ 5)
      (fun _ s' ↦ Reconciled False 5 [shackOwner] staleManager s') (fun _ _ ↦ False)
      staleManager := by
  refine wp_reconcile False ⟨id, fun _ ↦ .refl _⟩ 5 (List.pairwise_singleton ..) ?_ ?_
  · intro user huser
    rw [List.mem_singleton.1 huser]
    exact List.pairwise_singleton ..
  · intro key managed t hmanaged ht
    rw [staleManager, ManagerState.startBridge, get_set] at hmanaged
    split at hmanaged
    · cases hmanaged
      cases ht
      exact .inl ⟨rfl, rfl⟩
    · cases hmanaged

end Ollog

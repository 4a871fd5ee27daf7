import Ollog.Auth.Users
import Ollog.Lib.Pool

/-!
# The last enabled admin

Both endpoints that disable an account count the enabled admins first, and refuse to disable the
last one.  The count and the write are two steps, though, and between them other requests take
theirs.  A request that finds two enabled admins may disable one of them after another request has
disabled the other.

The state below is the accounts and how far each of any number of requests has come.  There is an
enabled admin all the time if and only if no write disables an admin whom the guard would protect
at that moment (`enabledAdmin_throughout_iff`), which is so when no request writes between the count
and the write of another (`guarded_of_writesApart`).
-/

set_option autoImplicit false

namespace Ollog

open Effects

/-! ## The requests, step by step -/

/-- A request to change whether an account is enabled. -/
inductive EnabledRequest where
  /-- `PATCH /api/admin/users/{username}/enabled`. -/
  | set (username : String) (enabled : Bool)
  /-- `POST /admin/ui/users/{username}/toggle`. -/
  | toggle (username : String)

namespace EnabledRequest

/-- The account the request is about. -/
def username : EnabledRequest → String
  | set username _ | toggle username => username

/-- What the account is to become. -/
def newEnabled (user : StoredUser) : EnabledRequest → Bool
  | set _ enabled => enabled
  | toggle _ => !user.enabled

/-- The answer when there is no such account. -/
def notFound : EnabledRequest → PyErr
  | set _ _ => .http 404 (.str "User not found")
  | toggle username => .http 404 (.str ("User '" ++ username ++ "' not found"))

/-- The request as a whole. -/
def apply (users : List StoredUser) : EnabledRequest → Except PyErr (List StoredUser)
  | set username enabled => setUserEnabled username enabled users
  | toggle username => toggleUser username users

end EnabledRequest

/-- How far a request has come. -/
inductive EnabledPhase where
  /-- About to look up the account. -/
  | find
  /-- About to count the enabled admins. -/
  | count (user : StoredUser) (enabled : Bool)
  /-- About to write. -/
  | write (user : StoredUser) (enabled : Bool)
  | finished (answer : Except PyErr Unit)

/-- `User.find({"role": "admin", "enabled": True}).count()`. -/
def enabledAdminCount (users : List StoredUser) : Nat :=
  (users.filter fun u ↦ u.role == "admin" && u.enabled).length

/-- What a request goes on to do with the account it has found. -/
def EnabledRequest.afterFind (request : EnabledRequest) : Option StoredUser → EnabledPhase
  | none => .finished (.error request.notFound)
  | some user =>
    if !request.newEnabled user && user.role == "admin" then .count user (request.newEnabled user)
    else .write user (request.newEnabled user)

/-- The next step of a request. -/
def EnabledRequest.advance (request : EnabledRequest) :
    EnabledPhase → List StoredUser → EnabledPhase × List StoredUser
  | .find, users => (request.afterFind (findByUsername users request.username), users)
  | .count user enabled, users =>
    if enabledAdminCount users ≤ 1 then
      (.finished (.error (.http 409 (.str "Cannot disable the last enabled admin"))), users)
    else (.write user enabled, users)
  | .write user enabled, users => (.finished (.ok ()), setEnabled users user.id enabled)
  | .finished answer, users => (.finished answer, users)

section

variable {ι : Type} [DecidableEq ι]

/-- The accounts, and how far each request has come. -/
abbrev EnabledState (ι : Type) := Pool.State ι EnabledPhase (List StoredUser)

/-- All requests are about to begin. -/
def enabledStart (ι : Type) (users : List StoredUser) : EnabledState ι := ⟨users, fun _ ↦ .find⟩

/-- One step of one request. -/
def enabledStep (requests : ι → EnabledRequest) : EnabledState ι → ι → EnabledState ι :=
  Pool.step fun i ↦ (requests i).advance

/-- There is an enabled admin. -/
def HasEnabledAdmin (users : List StoredUser) : Prop :=
  ∃ u ∈ users, u.role = "admin" ∧ u.enabled = true

instance : DecidablePred HasEnabledAdmin := fun users ↦ by unfold HasEnabledAdmin; infer_instance

/-- **The guard still holds**: if the step disables an account that is an enabled admin now, there
is more than one enabled admin now. -/
def GuardHolds (s : EnabledState ι) (i : ι) : Prop :=
  match s.threads i with
  | .write user false =>
    (∃ u ∈ s.store, u.id = user.id ∧ u.role = "admin" ∧ u.enabled = true) →
      1 < enabledAdminCount s.store
  | _ => True

instance (s : EnabledState ι) (i : ι) : Decidable (GuardHolds s i) := by
  unfold GuardHolds
  split <;> infer_instance

/-! ## What a step does to the admins -/

variable {requests : ι → EnabledRequest} {users : List StoredUser} {s : EnabledState ι} {i : ι}

omit [DecidableEq ι] in
theorem mem_setEnabled {oid : ObjectId} {enabled : Bool} {u : StoredUser} :
    u ∈ setEnabled users oid enabled ↔
      ∃ v ∈ users, u = if v.id = oid then { v with enabled := enabled } else v := by
  rw [setEnabled, List.mem_map]
  simp only [@eq_comm _ u]

omit [DecidableEq ι] in
/-- Enabling an account does not cost an admin. -/
theorem hasEnabledAdmin_enable {oid : ObjectId} (h : HasEnabledAdmin users) :
    HasEnabledAdmin (setEnabled users oid true) := by
  obtain ⟨u, hu, hrole, henabled⟩ := h
  refine ⟨_, mem_setEnabled.2 ⟨u, hu, rfl⟩, ?_⟩
  split
  · exact ⟨hrole, rfl⟩
  · exact ⟨hrole, henabled⟩

omit [DecidableEq ι] in
/-- **Disabling an account** leaves an enabled admin if and only if there is another one. -/
theorem hasEnabledAdmin_disable_iff {oid : ObjectId} :
    HasEnabledAdmin (setEnabled users oid false) ↔
      ∃ u ∈ users, u.id ≠ oid ∧ u.role = "admin" ∧ u.enabled = true := by
  constructor
  · rintro ⟨_, hmem, hrole, henabled⟩
    obtain ⟨u, hu, rfl⟩ := mem_setEnabled.1 hmem
    split at hrole <;> rename_i hid
    · rw [if_pos hid] at henabled
      cases henabled
    · rw [if_neg hid] at henabled
      exact ⟨u, hu, hid, hrole, henabled⟩
  · rintro ⟨u, hu, hid, hrole, henabled⟩
    refine ⟨u, mem_setEnabled.2 ⟨u, hu, ?_⟩, hrole, henabled⟩
    rw [if_neg hid]

omit [DecidableEq ι] in
/-- There is another enabled admin if and only if the guard would let the account be disabled. -/
theorem exists_other_iff (hids : DistinctIds users) (hadmin : HasEnabledAdmin users)
    (oid : ObjectId) :
    (∃ u ∈ users, u.id ≠ oid ∧ u.role = "admin" ∧ u.enabled = true) ↔
      ((∃ u ∈ users, u.id = oid ∧ u.role = "admin" ∧ u.enabled = true) →
        1 < enabledAdminCount users) := by
  set admins := users.filter fun u ↦ u.role == "admin" && u.enabled with hadmins
  have hmem : ∀ u, u ∈ admins ↔ u ∈ users ∧ u.role = "admin" ∧ u.enabled = true := fun u ↦ by
    rw [hadmins, List.mem_filter, Bool.and_eq_true, beq_iff_eq]
  have hcount : enabledAdminCount users = admins.length := rfl
  rw [hcount]
  constructor
  · rintro ⟨u, hu, hid, hrole, henabled⟩ ⟨v, hv, hvid, hvrole, hvenabled⟩
    have hu' := (hmem u).2 ⟨hu, hrole, henabled⟩
    have hv' := (hmem v).2 ⟨hv, hvrole, hvenabled⟩
    match admins, hu', hv' with
    | [w], hu', hv' =>
      rw [List.mem_singleton] at hu' hv'
      exact absurd (by rw [hu', ← hv', hvid]) hid
    | _ :: _ :: _, _, _ => simp
  · intro hguard
    by_cases hprotected : ∃ u ∈ users, u.id = oid ∧ u.role = "admin" ∧ u.enabled = true
    · have hlength := hguard hprotected
      have hdistinct : DistinctIds admins := List.Pairwise.filter _ hids
      match admins, hmem, hlength, hdistinct with
      | u :: v :: _, hmem, _, hdistinct =>
        have hne := (List.pairwise_cons.1 hdistinct).1 v (List.mem_cons_self ..)
        by_cases hu : u.id = oid
        · obtain ⟨hv, hrole⟩ := (hmem v).1 (List.mem_cons_of_mem _ (List.mem_cons_self ..))
          exact ⟨v, hv, fun hv' ↦ hne (hu.trans hv'.symm), hrole⟩
        · obtain ⟨hu', hrole⟩ := (hmem u).1 (List.mem_cons_self ..)
          exact ⟨u, hu', hu, hrole⟩
    · obtain ⟨u, hu, hrole⟩ := hadmin
      exact ⟨u, hu, fun hid ↦ hprotected ⟨u, hu, hid, hrole⟩, hrole⟩

theorem distinctIds_step (h : DistinctIds s.store) :
    DistinctIds (enabledStep requests s i).store := by
  rw [enabledStep, Pool.store_step]
  cases s.threads i with
  | find => exact h
  | count user enabled =>
    rw [EnabledRequest.advance]
    split <;> exact h
  | write user enabled => exact distinctIds_setEnabled h _ _
  | finished answer => exact h

/-- **One step**: there is an enabled admin after it if and only if the guard holds before it. -/
theorem hasEnabledAdmin_step_iff (hids : DistinctIds s.store) (hadmin : HasEnabledAdmin s.store) :
    HasEnabledAdmin (enabledStep requests s i).store ↔ GuardHolds s i := by
  rw [enabledStep, Pool.store_step, GuardHolds]
  cases s.threads i with
  | find => exact ⟨fun _ ↦ trivial, fun _ ↦ hadmin⟩
  | count user enabled =>
    rw [EnabledRequest.advance]
    split <;> exact ⟨fun _ ↦ trivial, fun _ ↦ hadmin⟩
  | write user enabled =>
    cases enabled with
    | true => exact ⟨fun _ ↦ trivial, fun _ ↦ hasEnabledAdmin_enable hadmin⟩
    | false => exact hasEnabledAdmin_disable_iff.trans (exists_other_iff hids hadmin user.id)
  | finished answer => exact ⟨fun _ ↦ trivial, fun _ ↦ hadmin⟩

/-! ## A request on its own -/

omit [DecidableEq ι] in
/-- The request as a whole, in terms of what it finds. -/
theorem apply_eq (request : EnabledRequest) : request.apply users =
    match findByUsername users request.username with
    | none => .error request.notFound
    | some user => changeEnabled user (request.newEnabled user) users := by
  cases request with
  | set username enabled =>
    rw [EnabledRequest.apply, setUserEnabled, EnabledRequest.username]
    cases findByUsername users username <;> rfl
  | toggle username =>
    rw [EnabledRequest.apply, toggleUser, EnabledRequest.username]
    cases findByUsername users username <;> rfl

/-- Three steps of one request, on their own, do what the request does as a whole. -/
theorem store_uninterrupted (h : s.threads i = .find) :
    (run (enabledStep requests) s [i, i, i]).store =
      ((requests i).apply s.store).toOption.getD s.store := by
  simp only [run_cons, run_nil, enabledStep, Pool.store_step, Pool.threads_step_self, h, apply_eq]
  rw [EnabledRequest.advance]
  cases hfind : findByUsername s.store (requests i).username with
  | none => rfl
  | some user =>
    dsimp only [EnabledRequest.afterFind]
    rw [changeEnabled]
    cases hguard : !(requests i).newEnabled user && user.role == "admin" with
    | false => rfl
    | true =>
      rw [if_pos rfl, EnabledRequest.advance, enabledAdminCount, Bool.true_and]
      simp only [decide_eq_true_eq]
      split <;> rfl

/-! ## Requests whose writes are apart -/

/-- **No request writes while another one is between its count and its write.**  It may look up its
account then, and count.  The requests that have counted are those about to disable an account that
they found to be an admin's. -/
def WritesApart (s : EnabledState ι) (i : ι) : Prop :=
  ∀ user enabled, s.threads i = .write user enabled →
    ∀ j, j ≠ i → ∀ other, s.threads j = .write other false → other.role ≠ "admin"

/-- What a request has found still holds of the accounts: the role of its account, and the count if
it has made one. -/
def EnabledPhase.Current (users : List StoredUser) : EnabledPhase → Prop
  | .find | .finished _ => True
  | .count user _ => ∃ u ∈ users, u.id = user.id ∧ u.role = user.role
  | .write user enabled => (∃ u ∈ users, u.id = user.id ∧ u.role = user.role) ∧
      (enabled = false → user.role = "admin" → 1 < enabledAdminCount users)

omit [DecidableEq ι] in
theorem EnabledRequest.current_afterFind (request : EnabledRequest) :
    (request.afterFind (findByUsername users request.username)).Current users := by
  cases hfind : findByUsername users request.username with
  | none => trivial
  | some user =>
    have hfound : ∃ u ∈ users, u.id = user.id ∧ u.role = user.role :=
      ⟨user, List.mem_of_find?_eq_some hfind, rfl, rfl⟩
    rw [EnabledRequest.afterFind]
    split
    · exact hfound
    · rename_i hskip
      refine ⟨hfound, fun hdisable hrole ↦ absurd ?_ hskip⟩
      rw [hdisable, hrole]
      rfl

omit [DecidableEq ι] in
/-- The count is current when it is made. -/
theorem EnabledRequest.current_count (request : EnabledRequest) {user : StoredUser}
    {enabled : Bool} (h : (EnabledPhase.count user enabled).Current users) :
    (request.advance (.count user enabled) users).1.Current users := by
  rw [EnabledRequest.advance]
  split
  · trivial
  · rename_i hcount
    exact ⟨h, fun _ _ ↦ not_le.1 hcount⟩

omit [DecidableEq ι] in
/-- No write changes a role, and one that falls between no count and its write changes no count
that still matters. -/
theorem EnabledPhase.Current.setEnabled {phase : EnabledPhase} {oid : ObjectId} {enabled : Bool}
    (h : phase.Current users)
    (hapart : ∀ other, phase = .write other false → other.role ≠ "admin") :
    phase.Current (setEnabled users oid enabled) := by
  have hfound : ∀ {user : StoredUser}, (∃ u ∈ users, u.id = user.id ∧ u.role = user.role) →
      ∃ u ∈ Ollog.setEnabled users oid enabled, u.id = user.id ∧ u.role = user.role := by
    rintro user ⟨u, hu, hid, hrole⟩
    refine ⟨_, mem_setEnabled.2 ⟨u, hu, rfl⟩, ?_⟩
    split <;> exact ⟨hid, hrole⟩
  cases phase with
  | find => trivial
  | count user _ => exact hfound h
  | write user disables =>
    refine ⟨hfound h.1, ?_⟩
    rintro rfl hrole
    exact absurd hrole (hapart user rfl)
  | finished _ => trivial

/-- What every request has found stays so, as long as the writes are apart. -/
theorem current_step (h : ∀ j, (s.threads j).Current s.store) (hapart : WritesApart s i) (j : ι) :
    ((enabledStep requests s i).threads j).Current (enabledStep requests s i).store := by
  rw [enabledStep, Pool.store_step]
  cases hphase : s.threads i with
  | find =>
    refine Pool.forall_threads_step h ?_ j
    rw [hphase]
    exact (requests i).current_afterFind
  | count user enabled =>
    have hstore : ((requests i).advance (.count user enabled) s.store).2 = s.store := by
      rw [EnabledRequest.advance]
      split <;> rfl
    rw [hstore]
    refine Pool.forall_threads_step h ?_ j
    rw [hphase]
    exact (requests i).current_count (hphase ▸ h i)
  | write user enabled =>
    by_cases hj : j = i
    · subst hj
      rw [Pool.threads_step_self, hphase]
      trivial
    · rw [Pool.threads_step_of_ne hj]
      exact (h j).setEnabled (hapart user enabled hphase j hj)
  | finished answer =>
    refine Pool.forall_threads_step h ?_ j
    rw [hphase]
    trivial

omit [DecidableEq ι] in
/-- A count that is current protects the last enabled admin. -/
theorem guardHolds_of_current (hids : DistinctIds s.store) (h : (s.threads i).Current s.store) :
    GuardHolds s i := by
  rw [GuardHolds]
  split
  · rename_i user hphase
    rintro ⟨u, hu, hid, hrole, -⟩
    rw [hphase] at h
    obtain ⟨⟨v, hv, hvid, hvrole⟩, hcount⟩ := h
    have hsame : u = v := by
      have hu' := findUser_of_mem hids hu
      rw [hid, ← hvid, findUser_of_mem hids hv] at hu'
      exact (Option.some.inj hu').symm
    exact hcount rfl (by rw [← hvrole, ← hsame, hrole])
  · trivial

/-- **Requests whose writes are apart** keep the guard: other requests may look up their accounts
and count between the count and the write of one, but not write. -/
theorem guarded_of_writesApart {schedule : List ι} (hids : DistinctIds users)
    (h : Guarded (enabledStep requests) WritesApart (enabledStart ι users) schedule) :
    Guarded (enabledStep requests) GuardHolds (enabledStart ι users) schedule :=
  h.mono_of_inv (I := fun s ↦ DistinctIds s.store ∧ ∀ i, (s.threads i).Current s.store)
    (fun _ _ hs hapart ↦ ⟨distinctIds_step hs.1, current_step hs.2 hapart⟩)
    (fun _ i hs _ ↦ guardHolds_of_current hs.1 (hs.2 i)) ⟨hids, fun _ ↦ trivial⟩

/-! ## Runs -/

/-- **There is always an enabled admin** if and only if the guard still holds at every write: the
admins are safe exactly as long as no request disables one whom the guard would have protected at
that moment. -/
theorem enabledAdmin_throughout_iff (requests : ι → EnabledRequest) (users : List StoredUser)
    (hids : DistinctIds users) (hadmin : HasEnabledAdmin users) (schedule : List ι) :
    (∀ before, before <+: schedule →
      HasEnabledAdmin (run (enabledStep requests) (enabledStart ι users) before).store) ↔
    Guarded (enabledStep requests) GuardHolds (enabledStart ι users) schedule :=
  guarded_iff_throughout (I := fun s ↦ DistinctIds s.store) (P := fun s ↦ HasEnabledAdmin s.store)
    (fun _ _ ↦ distinctIds_step) (fun _ _ ↦ hasEnabledAdmin_step_iff)
    (s := enabledStart ι users) hids hadmin schedule

end

/-- Two enabled admins. -/
def Sample.admins : List StoredUser :=
  [{ Sample.storedUser with role := "admin" },
    { id := ⟨3⟩, profile := { username := "k1abc", callsign := "K1ABC" }, role := "admin" }]

/-- Each admin disables the other. -/
def Sample.disableOther (second : Bool) : EnabledRequest :=
  .set (if second then "w1aw" else "k1abc") false

theorem enabledAdmin_while_serial : HasEnabledAdmin (run (enabledStep Sample.disableOther)
    (enabledStart Bool Sample.admins) [false, false, false, true, true, true]).store :=
  (enabledAdmin_throughout_iff Sample.disableOther Sample.admins (by unfold DistinctIds; decide)
    (by decide) [false, false, false, true, true, true]).2 (by decide) _ List.prefix_rfl

/-- Two admins who disable each other at the same time both go through. -/
theorem not_enabledAdmin_of_overlap : HasEnabledAdmin Sample.admins ∧
    ¬ HasEnabledAdmin (run (enabledStep Sample.disableOther)
      (enabledStart Bool Sample.admins) [false, true, false, true, false, true]).store := by
  decide

end Ollog

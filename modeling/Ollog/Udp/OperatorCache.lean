import Ollog.Auth.Users
import Ollog.Lib.DirtyCache
import Ollog.Udp.Server

/-!
# The operator cache of the UDP listener

`UDPOperatorCache` maps callsigns to the enabled users.  It is an instance of a cache behind a dirty
flag, and the admin endpoints mark it dirty.  But each process has a cache of its own: the admin
endpoints run in `app.admin_main`, the listener in `app.main`, and nothing in `app.main` ever marks
its cache dirty.  So the listener knows the accounts as they were when it was started
(`disabled_operator_still_logged`).

`Current` says when that makes no difference to a datagram, and `routed_throughout` that a datagram
is then logged as the accounts in the database demand.

If two accounts have one callsign, the cache has the one that the database returned last
(`orderIndependent_iff`).
-/

set_option autoImplicit false

namespace Ollog

open DirtyCache Effects

/-- What is cached: the users, by their callsigns. -/
abbrev OperatorMap := Std.ExtTreeMap String StoredUser

section

variable [UnicodeData]

/-- `UDPOperatorCache.load`, up to the assignment to the cache. -/
def loadOperators : Reader (List StoredUser) OperatorMap := do
  let users := (← Reader.source).filter (·.enabled)
  return users.foldl (fun cache u ↦ cache.insert (upper u.profile.callsign) u) ∅

/-- `UDPOperatorCache.resolve`. -/
def operatorCache : Protocol (List StoredUser) OperatorMap String (Option StoredUser) where
  load := loadOperators
  find callsign cache := cache[upper callsign]?

/-- The enabled accounts with a callsign, compared as the cache compares them. -/
def enabledWith (callsign : String) (users : List StoredUser) : List StoredUser :=
  users.filter fun u ↦ u.enabled && upper u.profile.callsign == upper callsign

/-- **What is cached**: under every callsign the last enabled account that has it. -/
theorem find_eval_loadOperators (callsign : String) (users : List StoredUser) :
    operatorCache.find callsign (loadOperators.eval users) = (enabledWith callsign users).getLast? := by
  have hfold : ∀ (users : List StoredUser) (cache : OperatorMap),
      (users.foldl (fun cache u ↦ cache.insert (upper u.profile.callsign) u) cache)[upper callsign]? =
        (users.filter fun u ↦ upper u.profile.callsign == upper callsign).getLast?.or
          cache[upper callsign]? := by
    intro users
    induction users with
    | nil => exact fun cache ↦ rfl
    | cons u users ih =>
      intro cache
      rw [List.foldl_cons, ih, List.filter_cons, Std.ExtTreeMap.getElem?_insert]
      by_cases hu : upper u.profile.callsign = upper callsign
      · rw [if_pos (by simpa using hu), if_pos (by simpa using hu), List.getLast?_cons]
        cases (users.filter fun u ↦ upper u.profile.callsign == upper callsign).getLast? <;> rfl
      · rw [if_neg (by simpa using hu), if_neg (by simpa using hu)]
  have heval : loadOperators.eval users = (users.filter (·.enabled)).foldl
      (fun cache u ↦ cache.insert (upper u.profile.callsign) u) ∅ := rfl
  rw [operatorCache, heval]
  dsimp only
  rw [hfold, List.filter_filter]
  simp [enabledWith, Bool.and_comm]

/-! ## The order of the accounts -/

/-- What is found after a load does not depend on the order in which the database returns the
accounts. -/
def OrderIndependent (users : List StoredUser) : Prop :=
  ∀ us us' : List StoredUser, us.Perm users → us'.Perm users → ∀ callsign,
    operatorCache.find callsign (loadOperators.eval us) =
      operatorCache.find callsign (loadOperators.eval us')

/-- No two enabled accounts have the same callsign. -/
def Unambiguous (users : List StoredUser) : Prop :=
  ∀ u ∈ users, ∀ u' ∈ users, u.enabled = true → u'.enabled = true →
    upper u.profile.callsign = upper u'.profile.callsign → u = u'

theorem mem_enabledWith {callsign : String} {users : List StoredUser} {u : StoredUser} :
    u ∈ enabledWith callsign users ↔
      u ∈ users ∧ u.enabled = true ∧ upper u.profile.callsign = upper callsign := by
  rw [enabledWith, List.mem_filter, Bool.and_eq_true, beq_iff_eq]

/-- Of accounts in an order of their own, the last one is found. -/
theorem find_eval_append (users : List StoredUser) {u : StoredUser} (hu : u.enabled = true) :
    operatorCache.find u.profile.callsign (loadOperators.eval (users ++ [u])) = some u := by
  have hlast : enabledWith u.profile.callsign [u] = [u] := by
    rw [enabledWith, List.filter_singleton, hu, beq_self_eq_true]
    rfl
  have hsplit : enabledWith u.profile.callsign (users ++ [u]) =
      enabledWith u.profile.callsign users ++ enabledWith u.profile.callsign [u] :=
    List.filter_append _ _
  rw [find_eval_loadOperators, hsplit, hlast, List.getLast?_concat]

/-- **The result of a lookup does not depend on the order of the accounts** if and only if no two
enabled accounts have the same callsign. -/
theorem orderIndependent_iff (users : List StoredUser) :
    OrderIndependent users ↔ Unambiguous users := by
  constructor
  · intro h u hu u' hu' henabled henabled' hsame
    -- Either of the two may come last.
    have hfind := h (users.erase u ++ [u]) (users.erase u' ++ [u'])
      (List.perm_append_singleton u _ |>.trans (List.perm_cons_erase hu).symm)
      (List.perm_append_singleton u' _ |>.trans (List.perm_cons_erase hu').symm)
      u.profile.callsign
    have hfind' : operatorCache.find u.profile.callsign
        (loadOperators.eval (users.erase u' ++ [u'])) = some u' := by
      rw [find_eval_loadOperators, enabledWith, hsame, ← enabledWith, ← find_eval_loadOperators]
      exact find_eval_append _ henabled'
    exact Option.some.inj ((find_eval_append _ henabled).symm.trans (hfind.trans hfind'))
  · intro h us us' hus hus' callsign
    have hmem : ∀ {us : List StoredUser}, us.Perm users → ∀ {u}, (enabledWith callsign us).getLast? =
        some u → u ∈ enabledWith callsign users := by
      intro us hus u hu
      obtain ⟨hu, henabled, hcallsign⟩ := mem_enabledWith.1 (List.mem_of_getLast? hu)
      exact mem_enabledWith.2 ⟨hus.mem_iff.1 hu, henabled, hcallsign⟩
    have hnone : ∀ {us : List StoredUser}, us.Perm users →
        ((enabledWith callsign us).getLast? = none ↔ enabledWith callsign users = []) := fun hus ↦ by
      have hperm : (enabledWith callsign _).Perm (enabledWith callsign users) := hus.filter _
      rw [List.getLast?_eq_none_iff]
      exact ⟨fun h ↦ (h ▸ hperm).nil_eq.symm, fun h ↦ (h ▸ hperm).eq_nil⟩
    rw [find_eval_loadOperators, find_eval_loadOperators]
    cases hlast : (enabledWith callsign us).getLast? with
    | none => exact ((hnone hus').2 ((hnone hus).1 hlast)).symm
    | some u =>
      cases hlast' : (enabledWith callsign us').getLast? with
      | none =>
        rw [(hnone hus).2 ((hnone hus').1 hlast')] at hlast
        cases hlast
      | some u' =>
        obtain ⟨hu, henabled, hcallsign⟩ := mem_enabledWith.1 (hmem hus hlast)
        obtain ⟨hu', henabled', hcallsign'⟩ := mem_enabledWith.1 (hmem hus' hlast')
        rw [h u hu u' hu' henabled henabled' (hcallsign.trans hcallsign'.symm)]

/-! ## Two processes -/

/-- The listener of `app.main`. -/
structure Listener where
  /-- Its operator cache. -/
  cache : Cache OperatorMap
  /-- `UDP_OPERATOR`, in upper case. -/
  operator : Option String
  /-- The account that was found for it at the start. -/
  user : Option StoredUser
  /-- The accounts as the cache has read them. -/
  loaded : List StoredUser

/-- The database, and the two processes. -/
structure Deployment where
  users : List StoredUser
  logs : Database
  /-- `app.main`, if it has been started. -/
  main : Option Listener
  /-- The operator cache of `app.admin_main`. -/
  adminCache : Cache OperatorMap

/-- An action of an admin. -/
inductive AdminAction where
  | create (oid : ObjectId) (body : CreateUserRequest)
  | setEnabled (username : String) (enabled : Bool)
  | toggle (username : String)

/-- What an action does to the accounts. -/
def AdminAction.apply (users : List StoredUser) : AdminAction → Except PyErr (List StoredUser)
  | create oid body => createUser oid body users
  | setEnabled username enabled => setUserEnabled username enabled users
  | toggle username => toggleUser username users

/-- A datagram that arrives, and what the token cache says of tokens at that time. -/
structure Datagram where
  env : Env
  token : String → Option User
  data : List UInt8

/-- What happens next. -/
inductive DeploymentEvent where
  /-- `app.main` is started, with this `UDP_OPERATOR`. -/
  | startMain (udpOperator : Option String)
  /-- A process is started and creates the first admin. -/
  | bootstrap (oid : ObjectId) (settings : AdminSettings)
  | admin (action : AdminAction)
  | datagram (d : Datagram)

/-- The listener right after the start. -/
def startListener (udpOperator : Option String) (users : List StoredUser) : Listener where
  cache := .install (loadOperators.eval users)
  operator := udpOperator.map fun op ↦ if op = "" then op else upper op
  user := udpOperator.bind fun op ↦ if op = "" then none else findByCallsign users (upper op)
  loaded := users

/-- The caches a datagram is handled with. -/
def Listener.resolvers (listener : Listener) (users : List StoredUser)
    (token : String → Option User) : Resolvers where
  token := token
  operator callsign :=
    (operatorCache.find callsign (listener.cache.refresh (loadOperators.eval users)).content).map
      (·.profile)

/-- Whether a datagram gets as far as looking its `OPERATOR` up. -/
def asksOperator (caches : Resolvers) (data : List UInt8) : Bool :=
  match parseAdi (decodeUtf8 data) with
  | (record :: _, []) =>
    match consumeToken caches ⟨record, none, none⟩ with
    | .ok a => a.record.contains "OPERATOR"
    | .error _ => false
  | _ => false

/-- The listener after it has handled a datagram: a dirty cache it has consulted is loaded. -/
def Listener.afterDatagram (listener : Listener) (users : List StoredUser) (d : Datagram) :
    Listener :=
  if asksOperator (listener.resolvers users d.token) d.data && listener.cache.dirty then
    { listener with cache := .install (loadOperators.eval users), loaded := users }
  else listener

/-- One event. -/
def Deployment.step (s : Deployment) : DeploymentEvent → Deployment
  | .startMain udpOperator => { s with main := some (startListener udpOperator s.users) }
  | .bootstrap oid settings =>
    match bootstrapAdmin oid settings s.users with
    | .ok users => { s with users }
    | .error _ => s
  | .admin action =>
    match action.apply s.users with
    | .ok users => { s with users, adminCache := s.adminCache.notify }
    | .error _ => s
  | .datagram d =>
    match s.main with
    | none => s
    | some listener => { s with
        logs := after (handleDatagram d.env (listener.resolvers s.users d.token) d.data
          listener.operator (listener.user.map (·.profile))) s.logs
        main := some (listener.afterDatagram s.users d) }

/-! ## Where a datagram goes -/

/-- The record of a datagram that is handled. -/
def firstRecord (data : List UInt8) : Option Record :=
  match parseAdi (decodeUtf8 data) with
  | (record :: _, []) => some record
  | _ => none

theorem parseAdi_of_firstRecord {data : List UInt8} {record : Record}
    (h : firstRecord data = some record) :
    ∃ records, parseAdi (decodeUtf8 data) = (record :: records, []) := by
  rw [firstRecord] at h
  split at h
  · rename_i first records hparse
    obtain rfl := Option.some.inj h
    exact ⟨records, hparse⟩
  · cases h

/-- A datagram names an operator, and its token, if it has one, is somebody's. -/
structure Datagram.NamesOperator (d : Datagram) (record : Record) (callsign : String) : Prop where
  first : firstRecord d.data = some record
  operator : record["OPERATOR"]? = some callsign
  token : ∀ token, record["APP_OLLOG_TOKEN"]? = some token → (d.token token).isSome = true

/-- A datagram leaves it to the listener whose it is. -/
structure Datagram.FallsBack (d : Datagram) (record : Record) : Prop where
  first : firstRecord d.data = some record
  operator : record["OPERATOR"]? = none
  token : record["APP_OLLOG_TOKEN"]? = none

omit [UnicodeData] in
theorem erase_of_getElem?_eq_none {record : Record} {k : String} (h : record[k]? = none) :
    record.erase k = record := by
  refine Std.ExtTreeMap.ext_getElem? fun j ↦ ?_
  rw [getElem?_erase_record]
  split
  · rename_i hj
    rw [hj, h]
  · rfl

/-- What is done with a record that names an operator. -/
theorem handleDatagram_of_operator {env : Env} {caches : Resolvers} {data : List UInt8}
    {operator : Option String} {user : Option User} {record : Record} {callsign : String}
    (hfirst : firstRecord data = some record) (hoperator : record["OPERATOR"]? = some callsign)
    (htoken : ∀ token, record["APP_OLLOG_TOKEN"]? = some token →
      (caches.token token).isSome = true) :
    handleDatagram env caches data operator user =
      match caches.operator callsign with
      | none => return .unknownOperator callsign
      | some u => ingestDatagram env (stripRouting record) u.callsign u := by
  obtain ⟨records, hparse⟩ := parseAdi_of_firstRecord hfirst
  rw [handleDatagram, hparse]
  dsimp only
  have hconsumed : ∃ a, consumeToken caches ⟨record, operator, user⟩ = .ok a ∧
      a.record = record.erase "APP_OLLOG_TOKEN" := by
    rw [consumeToken]
    cases hpresent : record["APP_OLLOG_TOKEN"]? with
    | none => exact ⟨_, rfl, (erase_of_getElem?_eq_none hpresent).symm⟩
    | some token =>
      obtain ⟨owner, howner⟩ := Option.isSome_iff_exists.1 (htoken token hpresent)
      dsimp only
      rw [howner]
      exact ⟨_, rfl, rfl⟩
  obtain ⟨⟨rest, operator', user'⟩, hok, rfl⟩ := hconsumed
  simp only [hok, bind, Except.bind, consumeOperator, operator_erase_token, hoperator]
  cases caches.operator callsign <;> rfl

/-- What is done with a record that leaves it to the listener. -/
theorem handleDatagram_of_fallback {env : Env} {caches : Resolvers} {data : List UInt8}
    {operator : Option String} {user : Option User} {record : Record}
    (hfirst : firstRecord data = some record) (hoperator : record["OPERATOR"]? = none)
    (htoken : record["APP_OLLOG_TOKEN"]? = none) :
    handleDatagram env caches data operator user =
      match operator, user with
      | some operator, some user => ingestDatagram env record operator user
      | _, _ => return .noUserResolved := by
  obtain ⟨records, hparse⟩ := parseAdi_of_firstRecord hfirst
  rw [handleDatagram, hparse]
  simp only [consumeToken, htoken, bind, Except.bind, consumeOperator, hoperator]
  cases operator <;> cases user <;> rfl

/-! ## What the accounts demand -/

/-- A datagram that names an operator is logged for every enabled account with that callsign whose
log takes it, and nowhere else. -/
structure RoutedByOperator (s : Deployment) (d : Datagram) (record : Record) (callsign : String) :
    Prop where
  logged : ∀ u ∈ enabledWith callsign s.users, ∀ coll,
    qsoCollectionName u.profile.username = .ok coll → ∀ doc,
    Admits d.env (stripRouting record) u.profile.callsign (some u.profile)
      (s.logs.collection coll) doc →
    (s.step (.datagram d)).logs.docs coll = s.logs.docs coll ++ [doc]
  others : ∀ coll, (∀ u ∈ enabledWith callsign s.users,
      qsoCollectionName u.profile.username ≠ .ok coll) →
    (s.step (.datagram d)).logs.collection coll = s.logs.collection coll

/-- Nothing is logged for a disabled account. -/
def SparesDisabled (s : Deployment) (d : Datagram) : Prop :=
  ∀ u ∈ s.users, u.enabled = false → ∀ coll, qsoCollectionName u.profile.username = .ok coll →
    (s.step (.datagram d)).logs.collection coll = s.logs.collection coll

/-- A datagram goes where the accounts in the database demand. -/
structure Routed (s : Deployment) (d : Datagram) : Prop where
  byOperator : ∀ record callsign, d.NamesOperator record callsign →
    RoutedByOperator s d record callsign
  byFallback : ∀ record, d.FallsBack record → SparesDisabled s d

/-- The listener knows what it has to know of the accounts: the enabled accounts with the callsign
that is named, of which there is at most one, are those it has loaded; and the account it falls back
to is enabled. -/
def Current (s : Deployment) : DeploymentEvent → Prop
  | .datagram d => ∀ listener, s.main = some listener →
      (∀ record callsign, d.NamesOperator record callsign →
        enabledWith callsign listener.loaded = enabledWith callsign s.users ∧
        (enabledWith callsign s.users).length ≤ 1) ∧
      ∀ record, d.FallsBack record → ∀ f, listener.user = some f → ∀ u ∈ s.users,
        u.profile.username = f.profile.username → u.enabled = true
  | .startMain _ | .bootstrap .. | .admin _ => True

/-- The cache of a listener is what it has loaded. -/
def ServesLoaded (s : Deployment) : Prop :=
  ∀ listener, s.main = some listener →
    listener.cache = .install (loadOperators.eval listener.loaded)

theorem ServesLoaded.step {s : Deployment} (h : ServesLoaded s) (e : DeploymentEvent) :
    ServesLoaded (s.step e) := by
  intro listener hmain
  cases e with
  | startMain udpOperator =>
    obtain rfl := Option.some.inj hmain
    rfl
  | bootstrap oid settings =>
    rw [Deployment.step] at hmain
    split at hmain <;> exact h listener hmain
  | admin action =>
    rw [Deployment.step] at hmain
    split at hmain <;> exact h listener hmain
  | datagram d =>
    rw [Deployment.step] at hmain
    split at hmain
    · exact h listener hmain
    · rename_i old hold
      obtain rfl := Option.some.inj hmain
      rw [Listener.afterDatagram]
      split
      · rfl
      · exact h old hold

/-- A log takes at most one document for a record. -/
theorem Admits.unique {env : Env} {record : Record} {operator : String}
    {profile : Option User} {c : Collection} {doc doc' : Doc}
    (h : Admits env record operator profile c doc)
    (h' : Admits env record operator profile c doc') : doc = doc' := by
  obtain ⟨-, qsoDict, _, qso, _, hbuild, -, -, hqso, -, rfl⟩ := h
  obtain ⟨-, qsoDict', _, qso', _, hbuild', -, -, hqso', -, rfl⟩ := h'
  obtain rfl := Except.ok.inj (hbuild.symm.trans hbuild')
  obtain rfl := Except.ok.inj (hqso.symm.trans hqso')
  rfl

/-- The logs after a datagram. -/
theorem Deployment.logs_datagram {s : Deployment} {listener : Listener} (h : s.main = some listener)
    (d : Datagram) : (s.step (.datagram d)).logs =
      after (handleDatagram d.env (listener.resolvers s.users d.token) d.data listener.operator
        (listener.user.map (·.profile))) s.logs := by
  rw [step, h]

/-- A listener whose cache is what it has loaded finds the last enabled account it has loaded. -/
theorem Listener.operator_resolvers {listener : Listener}
    (h : listener.cache = .install (loadOperators.eval listener.loaded)) (users : List StoredUser)
    (token : String → Option User) (callsign : String) :
    (listener.resolvers users token).operator callsign =
      (enabledWith callsign listener.loaded).getLast?.map (·.profile) := by
  rw [resolvers, h]
  dsimp only
  rw [Cache.refresh, if_neg (show ¬ (Cache.install _).dirty = true from Bool.false_ne_true),
    Cache.install, find_eval_loadOperators]

theorem routedByOperator {s : Deployment} {listener : Listener} (hmain : s.main = some listener)
    (hserves : ServesLoaded s) {d : Datagram} {record : Record} {callsign : String}
    (hnames : d.NamesOperator record callsign)
    (hloaded : enabledWith callsign listener.loaded = enabledWith callsign s.users)
    (hshared : (enabledWith callsign s.users).length ≤ 1) : RoutedByOperator s d record callsign := by
  have hlogs := s.logs_datagram hmain d
  rw [handleDatagram_of_operator hnames.first hnames.operator hnames.token,
    Listener.operator_resolvers (hserves listener hmain), hloaded] at hlogs
  cases henabled : enabledWith callsign s.users with
  | nil =>
    -- No account is enabled, and none is found.
    rw [henabled] at hlogs
    refine ⟨fun u hu ↦ ?_, fun coll _ ↦ ?_⟩
    · rw [henabled] at hu
      cases hu
    · rw [hlogs]
      rfl
  | cons u rest =>
    obtain rfl : rest = [] := by
      rw [henabled, List.length_cons] at hshared
      exact List.length_eq_zero_iff.1 (by omega)
    rw [henabled] at hlogs
    change _ = after (ingestDatagram d.env (stripRouting record) u.profile.callsign u.profile)
      s.logs at hlogs
    refine ⟨fun u' hu' coll hcoll doc hadmits ↦ ?_, fun coll hne ↦ ?_⟩
    · rw [henabled, List.mem_singleton] at hu'
      subst hu'
      have hingested := ingested d.env (stripRouting record) u'.profile.callsign (some u'.profile)
        "udp" (s.logs.collection coll)
      rw [hlogs, Database.docs, collection_ingestDatagram.2 hcoll]
      generalize after (ingestQsoRecord d.env (stripRouting record) u'.profile.callsign
        (some u'.profile) "udp" : Db _) (s.logs.collection coll) = c at hingested
      cases hingested with
      | inserted hadmits' hdocs => rw [hdocs, hadmits.unique hadmits', Database.docs]
      | kept hrefuses => exact absurd hadmits (hrefuses doc)
    · rw [hlogs]
      exact collection_ingestDatagram.1 (hne u (henabled ▸ List.mem_singleton_self u))

theorem sparesDisabled {s : Deployment} {listener : Listener} (hmain : s.main = some listener)
    {d : Datagram} {record : Record} (hfalls : d.FallsBack record)
    (henabled : ∀ f, listener.user = some f → ∀ u ∈ s.users,
      u.profile.username = f.profile.username → u.enabled = true) : SparesDisabled s d := by
  intro u hu hdisabled coll hcoll
  rw [s.logs_datagram hmain d,
    handleDatagram_of_fallback hfalls.first hfalls.operator hfalls.token]
  cases hoperator : listener.operator with
  | none => rfl
  | some operator =>
    cases huser : listener.user with
    | none => rfl
    | some f =>
      refine collection_ingestDatagram.1 fun hcoll' ↦ ?_
      have hsame := qsoCollectionName_injective hcoll hcoll'
      cases hdisabled.symm.trans (henabled f huser u hu hsame)

/-- Every datagram of a run that a listener receives goes where the accounts demand. -/
def RoutedThroughout (s : Deployment) (events : List DeploymentEvent) : Prop :=
  ∀ before after d, events = before ++ .datagram d :: after →
    (run Deployment.step s before).main.isSome = true → Routed (run Deployment.step s before) d

/-- **Account changes reach the listener** in a run in which it knows, whenever a datagram arrives,
what it has to know of the accounts. -/
theorem routed_throughout {s : Deployment} (hmain : s.main = none) {events : List DeploymentEvent}
    (h : Guarded Deployment.step Current s events) : RoutedThroughout s events := by
  rintro before after d rfl hstarted
  obtain ⟨hbefore, hcurrent, -⟩ := guarded_append.1 h
  have hserves : ServesLoaded (run Deployment.step s before) := by
    refine run_induction (fun s e (hs : ServesLoaded s) ↦ hs.step e) ?_ before
    intro listener hlistener
    cases hmain.symm.trans hlistener
  obtain ⟨listener, hlistener⟩ := Option.isSome_iff_exists.1 hstarted
  obtain ⟨hoperator, hfallback⟩ := hcurrent listener hlistener
  refine ⟨fun record callsign hnames ↦ ?_, fun record hfalls ↦ ?_⟩
  · obtain ⟨hloaded, hshared⟩ := hoperator record callsign hnames
    exact routedByOperator hlistener hserves hnames hloaded hshared
  · exact sparesDisabled hlistener hfalls (hfallback record hfalls)

end

/-! ## Two runs -/

section

attribute [local instance] UnicodeData.ascii

/-- A deployment with one account. -/
def Sample.deployment : Deployment where
  users := [Sample.storedUser]
  logs := Sample.database
  main := none
  adminCache := ⟨∅, true⟩

/-- A datagram for that account. -/
@[irreducible] def Sample.named : List UInt8 := encodeUtf8
  "<OPERATOR:4>W1AW<CALL:5>N0AAA<BAND:3>20m<MODE:2>CW<QSO_DATE:8>20240101<TIME_ON:4>1200<EOR>".toList

theorem routed_after_start : RoutedThroughout Sample.deployment
    [.startMain none, .datagram ⟨Sample.env, fun _ ↦ none, Sample.named⟩] := by
  refine routed_throughout rfl ⟨trivial, fun listener hmain ↦ ⟨fun record callsign _ ↦ ?_, ?_⟩, trivial⟩
  · obtain rfl := Option.some.inj hmain
    exact ⟨rfl, List.length_filter_le ..⟩
  · obtain rfl := Option.some.inj hmain
    exact fun _ _ f hf ↦ nomatch hf

/-- The account is disabled, and its log is still written. -/
theorem disabled_operator_still_logged : ¬ RoutedThroughout Sample.deployment
    [.startMain none, .admin (.setEnabled "w1aw" false),
      .datagram ⟨Sample.env, fun _ ↦ none, Sample.named⟩] := by
  intro h
  have hrouted := h [.startMain none, .admin (.setEnabled "w1aw" false)] [] _ rfl rfl
  have hparse : (match firstRecord Sample.named with
      | some record => record["OPERATOR"]? == some "W1AW" && record["APP_OLLOG_TOKEN"]?.isNone
      | none => false) = true := by decide +kernel
  have hwritten : ((run Deployment.step Sample.deployment [.startMain none,
      .admin (.setEnabled "w1aw" false), .datagram ⟨Sample.env, fun _ ↦ none, Sample.named⟩]).logs.docs
        "w1aw_qsos").length = 1 := by decide +kernel
  have hdisabled : ∀ u ∈ enabledWith "W1AW" (run Deployment.step Sample.deployment
      [.startMain none, .admin (.setEnabled "w1aw" false)]).users,
      qsoCollectionName u.profile.username ≠ .ok "w1aw_qsos" := by decide +kernel
  cases hfirst : firstRecord Sample.named with
  | none =>
    rw [hfirst] at hparse
    cases hparse
  | some record =>
    rw [hfirst, Bool.and_eq_true, beq_iff_eq, Option.isNone_iff_eq_none] at hparse
    have hnames : Datagram.NamesOperator ⟨Sample.env, fun _ ↦ none, Sample.named⟩ record "W1AW" :=
      ⟨hfirst, hparse.1, fun token htoken ↦ by cases hparse.2.symm.trans htoken⟩
    have hkept := (hrouted.byOperator record "W1AW" hnames).others "w1aw_qsos" hdisabled
    have hdocs := congrArg (fun c : Collection ↦ c.docs.length) hkept
    cases hwritten.symm.trans hdocs

/-- A second account with the callsign of the first. -/
def Sample.sameCallsign : CreateUserRequest where
  username := "w1aw_club"
  callsign := "w1aw"

/-- It is created, and which of the two is found is left to the database. -/
theorem not_orderIndependent_sameCallsign : ∃ u,
    createUser ⟨99⟩ Sample.sameCallsign [Sample.storedUser] = .ok [Sample.storedUser, u] ∧
    ¬ OrderIndependent [Sample.storedUser, u] := by
  refine ⟨{ id := ⟨99⟩, profile := { username := "w1aw_club", callsign := "W1AW" } },
    by decide +kernel, fun h ↦ ?_⟩
  have hfind := h _ _ (.refl _) (.swap _ _ _) "W1AW"
  rw [find_eval_loadOperators, find_eval_loadOperators] at hfind
  exact absurd hfind (by decide +kernel)

end

end Ollog

import Ollog.Lib.Broadcast
import Ollog.Lib.Outbox
import Ollog.Qso.Log

/-!
# The live feed

Every contact that the program inserts, into whoever's log, is rendered as a row of the station's
live feed, and the row is broadcast to all sessions that are open.  The queues are not bounded, so a
broadcast never waits for a slow session.  But a call of `insert_qso_dict` waits for the database
before it broadcasts, and meanwhile other calls insert and broadcast.

`live_feed_exact` is about every interleaving of such calls, of other writes, and of sessions that
open, read and close: a session gets the rows of the contacts that are broadcast while it is open,
each once and in the order of the broadcasts; and every call broadcasts the contact that it has
inserted, once, if it comes to that.  A contact whose row cannot be rendered is in the log, and its
row is missing in every session alike.
-/

set_option autoImplicit false

namespace Ollog

open Effects Broadcast

/-! ## The manager -/

/-- The context of the template of a row. -/
structure FeedContext where
  call : Value
  band : Value
  mode : Value
  freq : Value
  operator : Value
  qsoDateUtc : Value

/-- `a or b`, of two values. -/
def orValue (a b : Value) : Value := if a.truthy then a else b

/-- `qso_feed_context`. -/
def qsoFeedContext (qso : QSO) : FeedContext where
  call := orValue qso.call (Doc.get qso.modelExtra "CALL" (.str ""))
  band := orValue qso.band (Doc.get qso.modelExtra "BAND" (.str ""))
  mode := orValue qso.mode (Doc.get qso.modelExtra "MODE" (.str ""))
  freq := Doc.get qso.modelExtra "FREQ" (.str "")
  operator := orValue qso.operatorCallsign (Doc.get qso.modelExtra "_operator" (.str ""))
  qsoDateUtc := orValue qso.qsoDateUtc (Doc.get qso.modelExtra "qso_date_utc" .null)

variable (render : FeedContext → Except PyErr String)

/-- The row of a contact, if the template renders. -/
def feedRow (qso : QSO) : Option String := (render (qsoFeedContext qso)).toOption

/-- `broadcast_qso`.  What goes wrong is logged and forgotten. -/
def broadcastQso (qso : QSO) (feed : Listeners String) : Listeners String :=
  match render (qsoFeedContext qso) with
  | .ok html => feed.step (.broadcast html)
  | .error _ => feed

/-! ## The station -/

/-- A call of `insert_qso_dict`. -/
structure InsertCall (κ : Type) where
  log : κ
  env : Env
  oid : ObjectId
  qsoDict : Doc

/-- How far such a call has come. -/
inductive InsertPhase where
  | begin
  /-- The contact is in the log, and its row is still to be broadcast. -/
  | broadcast (qso : QSO)
  | finished

/-- The contact whose row a call is about to broadcast. -/
def InsertPhase.qso : InsertPhase → Option QSO
  | broadcast qso => some qso
  | begin | finished => none

variable {ι κ : Type}

/-- The logs of the station, the manager of its feed with the sessions, and the calls that insert. -/
structure Station (ι κ : Type) where
  logs : κ → Collection
  feed : Listeners String
  phases : ι → InsertPhase

/-- What happens at a station. -/
inductive StationEvent (ι κ : Type) where
  /-- A call takes its next step. -/
  | call (i : ι)
  /-- Anything that changes a log without inserting. -/
  | edit (log : κ) (change : Collection → Collection)
  /-- `station_feed` begins. -/
  | openSession
  /-- A session yields the next row. -/
  | yieldRow (q : Nat)
  /-- `station_feed` ends. -/
  | closeSession (q : Nat)

namespace Station

variable [DecidableEq ι] [DecidableEq κ] [UnicodeData] (calls : ι → InsertCall κ)

/-- The QSO that a call would insert now. -/
def insertion (call : InsertCall κ) (s : Station ι κ) : Option QSO :=
  match (insertQsoDict call.env call.oid call.qsoDict : Db _) (s.logs call.log) with
  | .ok result _ => if result.status = .inserted then result.qso else none
  | .error _ _ => none

/-- The QSO that an event inserts, the call that does, and the log it goes to. -/
def inserted (s : Station ι κ) : StationEvent ι κ → Option (ι × κ × QSO)
  | .call i => match s.phases i with
    | .begin => (s.insertion (calls i)).map fun qso ↦ (i, (calls i).log, qso)
    | .broadcast _ | .finished => none
  | .edit .. | .openSession | .yieldRow _ | .closeSession _ => none

/-- The QSO that a call has inserted and is about to broadcast. -/
def waiting (s : Station ι κ) (i : ι) : Option (κ × QSO) :=
  (s.phases i).qso.map ((calls i).log, ·)

/-- The QSO that an event broadcasts. -/
def announced (s : Station ι κ) : StationEvent ι κ → Option (ι × κ × QSO)
  | .call i => (s.waiting calls i).map (i, ·)
  | .edit .. | .openSession | .yieldRow _ | .closeSession _ => none

/-- One event. -/
def step (s : Station ι κ) (event : StationEvent ι κ) : Station ι κ :=
  match event with
  | .call i => match s.phases i with
    | .begin => { s with
        logs := Function.update s.logs (calls i).log (after
          (insertQsoDict (calls i).env (calls i).oid (calls i).qsoDict : Db _)
          (s.logs (calls i).log))
        phases := Function.update s.phases i
          ((s.insertion (calls i)).elim .finished .broadcast) }
    | .broadcast qso => { s with
        feed := broadcastQso render qso s.feed
        phases := Function.update s.phases i .finished }
    | .finished => s
  | .edit log change => { s with logs := Function.update s.logs log (change (s.logs log)) }
  | .openSession => { s with feed := s.feed.step .connect }
  | .yieldRow q => { s with feed := s.feed.step (.take q) }
  | .closeSession q => { s with feed := s.feed.step (.disconnect q) }

/-- The QSOs that a history inserts, in the order of the inserts. -/
def insertions : Station ι κ → List (StationEvent ι κ) → List (ι × κ × QSO) :=
  Outbox.along (step render calls) (inserted calls)

/-- The QSOs that a history broadcasts, in the order of the broadcasts. -/
def announcements : Station ι κ → List (StationEvent ι κ) → List (ι × κ × QSO) :=
  Outbox.along (step render calls) (announced calls)

/-! ### What the feed sees -/

/-- What an event does to the manager. -/
def feedActions (s : Station ι κ) (event : StationEvent ι κ) : List (Action String) :=
  match event with
  | .openSession => [.connect]
  | .yieldRow q => [.take q]
  | .closeSession q => [.disconnect q]
  | .edit .. => []
  | .call i => ((s.waiting calls i).bind fun item ↦ feedRow render item.2).toList.map .broadcast

variable {render} {calls} {s : Station ι κ} {q : Nat}

omit [UnicodeData] in
theorem broadcastQso_eq (qso : QSO) (feed : Listeners String) :
    broadcastQso render qso feed =
      run Listeners.step feed ((feedRow render qso).toList.map .broadcast) := by
  rw [broadcastQso, feedRow]
  cases render (qsoFeedContext qso) <;> rfl

theorem feed_step (s : Station ι κ) (event : StationEvent ι κ) :
    (s.step render calls event).feed =
      run Listeners.step s.feed (s.feedActions render calls event) := by
  cases event with
  | call i =>
    rw [step, feedActions, waiting]
    cases s.phases i with
    | begin => rfl
    | broadcast qso => exact broadcastQso_eq qso s.feed
    | finished => rfl
  | edit log change => rfl
  | openSession => rfl
  | yieldRow q => rfl
  | closeSession q => rfl

/-- What reaches the sessions are the rows of the contacts that are broadcast. -/
theorem broadcasts_history (s : Station ι κ) (events : List (StationEvent ι κ)) :
    Listeners.broadcasts (history (step render calls) (feedActions render calls) s events) =
      (s.announcements render calls events).filterMap fun item ↦ feedRow render item.2.2 := by
  induction events generalizing s with
  | nil => rfl
  | cons event events ih =>
    rw [history, Listeners.broadcasts, List.filterMap_append, announcements, Outbox.along,
      List.filterMap_append]
    congr 1
    · cases event with
      | call i =>
        rw [feedActions, announced]
        cases s.waiting calls i with
        | none => rfl
        | some item => cases hrow : feedRow render item.2 <;> simp [hrow]
      | edit log change => rfl
      | openSession => rfl
      | yieldRow q => rfl
      | closeSession q => rfl
    · exact ih _

omit [DecidableEq ι] [DecidableEq κ] [UnicodeData] in
/-- Nothing but closing a session disconnects its queue. -/
theorem eq_closeSession {s : Station ι κ} {event : StationEvent ι κ}
    (h : .disconnect q ∈ s.feedActions render calls event) : event = .closeSession q := by
  cases event with
  | closeSession q' =>
    cases List.mem_singleton.1 h
    rfl
  | call i => simp [feedActions] at h
  | edit log change => cases h
  | openSession => simp [feedActions] at h
  | yieldRow q' => simp [feedActions] at h

/-- **A call broadcasts what it has inserted**, after it has inserted it. -/
theorem accounts : Outbox.Accounts (step render calls) (waiting calls) (inserted calls)
    (@announced ι κ calls) := by
  intro s event j
  cases event with
  | call i =>
    rw [inserted, announced, step, waiting, waiting, waiting]
    by_cases hj : j = i
    · subst hj
      cases hphase : s.phases j with
      | begin => cases s.insertion (calls j) <;> simp [InsertPhase.qso]
      | broadcast qso => simp [InsertPhase.qso]
      | finished => simp [InsertPhase.qso, hphase]
    · cases s.phases i with
      | begin => cases s.insertion (calls i) <;> simp [InsertPhase.qso, Ne.symm hj, hj]
      | broadcast qso => simp [InsertPhase.qso, Ne.symm hj, hj]
      | finished => simp [InsertPhase.qso]
  | edit log change => exact List.append_nil _
  | openSession => exact List.append_nil _
  | yieldRow q => exact List.append_nil _
  | closeSession q => exact List.append_nil _

/-! ### What the logs see -/

/-- The document of a QSO that is being inserted is its dump. -/
theorem qsoToMongoDoc_of_input {now : DateTime} {oid : ObjectId} {qsoDict : Doc} {qso : QSO}
    (h : qsoFromInputDict now oid qsoDict = .ok qso) : qsoToMongoDoc oid qso = qso.modelDump := by
  obtain ⟨-, rfl⟩ := qsoFromInputDict_eq_ok.1 h
  have hextra : (inputQso now oid qsoDict).modelExtra["_id"]? = none := by
    rw [inputQso, Doc.getElem?_keep, if_neg (by decide)]
  refine if_neg ?_
  rw [Doc.get, QSO.getElem?_modelDump]
  simp only [QSO.refreshRowHash, hextra, if_true, Option.none_or, Option.getD_some]
  exact inputId_ne_null oid qsoDict

/-- What `insert_qso_dict` does to a log: if it says so, it has appended the QSO it returns, and
otherwise it has changed nothing. -/
theorem wp_insertQsoDict_appends {env : Env} {oid : ObjectId} {qsoDict : Doc} {c : Collection} :
    wp (insertQsoDict env oid qsoDict : Db _)
      (fun result c' ↦ (∃ qso, result.status = .inserted ∧ result.qso = some qso ∧
          c'.docs = c.docs ++ [Doc.toStored qso.modelDump]) ∨
        result.status = .duplicate ∧ c' = c)
      (fun _ c' ↦ c' = c) c := by
  simp only [insertQsoDict, wp_bind, wp_ofExcept, wp_tryCatch, wp_liftM, wp_insertOne, wp_pure]
  refine ⟨fun qso hqso ↦ ⟨fun c' hc' ↦ .inl ⟨qso, trivial, rfl, ?_⟩, fun exc _ ↦ ?_⟩,
    fun _ _ ↦ trivial⟩
  · rw [← qsoToMongoDoc_of_input hqso]
    exact (Collection.insert_eq_ok hc').1
  · split
    · simp only [wp_ite, wp_throw, wp_bind, wp_liftM, wp_findOne, wp_ofExcept, wp_pure]
      exact ⟨fun _ ↦ trivial, fun _ ↦ ⟨fun _ _ ↦ .inr ⟨trivial, trivial⟩, fun _ _ ↦ trivial⟩⟩
    · trivial

/-- **An event appends to a log what it inserts**, unless it is an edit. -/
theorem docs_step {event : StationEvent ι κ} (h : ∀ log change, event ≠ .edit log change) (k : κ) :
    ((s.step render calls event).logs k).docs = (s.logs k).docs ++
      ((s.inserted calls event).toList.filter fun item ↦ item.2.1 = k).map
        fun item ↦ Doc.toStored item.2.2.modelDump := by
  cases event with
  | edit log change => exact absurd rfl (h log change)
  | openSession => exact (List.append_nil _).symm
  | yieldRow q => exact (List.append_nil _).symm
  | closeSession q => exact (List.append_nil _).symm
  | call i =>
    rw [step, inserted]
    cases s.phases i with
    | broadcast qso => exact (List.append_nil _).symm
    | finished => exact (List.append_nil _).symm
    | begin =>
      dsimp only
      by_cases hk : k = (calls i).log
      · subst hk
        have hwp := @wp_insertQsoDict_appends _ (calls i).env (calls i).oid (calls i).qsoDict
          (s.logs (calls i).log)
        rw [Function.update_self, insertion, after]
        rw [wp] at hwp
        split at hwp <;> rename_i hrun <;> rw [hrun]
        · obtain ⟨qso, hstatus, hqso, hdocs⟩ | ⟨hstatus, rfl⟩ := hwp
          · simp [hstatus, hqso, hdocs]
          · simp [hstatus]
        · simp [hwp]
      · rw [Function.update_of_ne hk]
        cases s.insertion (calls i) with
        | none => exact (List.append_nil _).symm
        | some qso => simp [Ne.symm hk]

theorem docs_run {events : List (StationEvent ι κ)}
    (h : ∀ log change, .edit log change ∉ events) (s : Station ι κ) (k : κ) :
    ((run (step render calls) s events).logs k).docs = (s.logs k).docs ++
      ((s.insertions render calls events).filter fun item ↦ item.2.1 = k).map
        fun item ↦ Doc.toStored item.2.2.modelDump := by
  induction events generalizing s with
  | nil => exact (List.append_nil _).symm
  | cons event events ih =>
    have hfirst : ∀ log change, event ≠ .edit log change := fun log change heq ↦
      h log change (heq ▸ List.mem_cons_self)
    rw [run_cons, ih fun log change hmem ↦ h log change (List.mem_cons_of_mem _ hmem),
      docs_step hfirst, insertions, Outbox.along, List.filter_append, List.map_append,
      List.append_assoc]

/-! ### A session -/

/-- **A session of the live feed** gets the rows of exactly those contacts that are broadcast while
it is open, each once and in order; once it has yielded what waits, it has yielded them all; and
after it is closed it gets nothing more.  Every call that inserts a contact broadcasts it once, and
nothing else, unless it still waits at the end; so if no call is between the two when the session
opens, and none in the end, the session has got the rows of the contacts inserted while it was open.
Unless a log is edited, these contacts are what it has grown by. -/
theorem live_feed_exact (calls : ι → InsertCall κ) (s : Station ι κ)
    (events rest : List (StationEvent ι κ)) :
    let q := s.feed.hub.next
    let opened := s.step render calls .openSession
    let t := run (step render calls) opened events
    let contacts := opened.insertions render calls events
    let shown := opened.announcements render calls events
    .closeSession q ∉ events →
      t.feed.given q = shown.filterMap (fun item ↦ feedRow render item.2.2) ∧
      (run (step render calls) t (List.replicate (t.feed.hub.items q).length
        (.yieldRow q))).feed.taken q = t.feed.given q ∧
      (run (step render calls) t (.closeSession q :: rest)).feed.given q = t.feed.given q ∧
      (∀ i, (s.waiting calls i).toList ++ Outbox.itemsOf i contacts =
        Outbox.itemsOf i shown ++ (t.waiting calls i).toList) ∧
      ((∀ i, s.waiting calls i = none) → (∀ i, t.waiting calls i = none) → shown.Perm contacts) ∧
      ((∀ log change, .edit log change ∉ events) → ∀ log, (t.logs log).docs = (s.logs log).docs ++
        (contacts.filter fun item ↦ item.2.1 = log).map
          fun item ↦ Doc.toStored item.2.2.modelDump) := by
  intro q opened t contacts shown hopen
  refine ⟨?_, taken_of_yields Station.feed (fun _ ↦ rfl) t, ?_, ?_, ?_, ?_⟩
  · rw [← broadcasts_history]
    refine given_of_session Station.feed (s := s) feed_step rfl ?_
    exact fun event hevent t hmem ↦ hopen (eq_closeSession hmem ▸ hevent)
  · refine given_of_closed Station.feed feed_step rfl ?_
    exact lt_next_run_of_open Station.feed feed_step (Nat.lt_succ_self q)
  · exact Outbox.accounts_run accounts opened events
  · intro hstart hend
    have hperm : (Outbox.ofKind (fun _ ↦ True) shown).Perm
        (Outbox.ofKind (fun _ ↦ True) contacts) :=
      Outbox.perm_of_quiet accounts _ (fun i _ ↦ hstart i) fun i _ ↦ hend i
    simpa [Outbox.ofKind] using hperm
  · intro hedit log
    exact docs_run hedit opened log

end Station

section

attribute [local instance] UnicodeData.ascii

/-- Two calls, for two accounts. -/
def Sample.insertCalls (second : Bool) : InsertCall Bool where
  log := second
  env := Sample.env
  oid := if second then ⟨8⟩ else ⟨7⟩
  qsoDict := (∅ : Doc).insert "CALL" (.str (if second then "K2DEF" else "K1ABC"))

/-- The second contact is inserted last and broadcast first; a session that is open meanwhile is
given both rows, in the order of the broadcasts. -/
theorem live_feed_exact_of_overlap :
    let render : FeedContext → Except PyErr String := fun context ↦ .ok context.call.pyStr
    let s : Station Bool Bool := ⟨fun _ ↦ .empty "ollog.qsos" true, .empty, fun _ ↦ .begin⟩
    let opened := s.step render Sample.insertCalls .openSession
    let events : List (StationEvent Bool Bool) :=
      [.call false, .call true, .call true, .call false]
    (run (Station.step render Sample.insertCalls) opened events).feed.given 0 =
        ["K2DEF", "K1ABC"] ∧
      ((opened.insertions render Sample.insertCalls events).map fun item ↦ item.2.2.call.pyStr) =
        ["K1ABC", "K2DEF"] := by
  intro render s opened events
  have hexact := @Station.live_feed_exact render _ _ _ _ _ Sample.insertCalls s events []
    (by simp [events])
  refine ⟨hexact.1.trans ?_, ?_⟩
  · decide +kernel
  · decide +kernel

end

end Ollog

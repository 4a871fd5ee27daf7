import Ollog.Qso.Import
import Ollog.Qso.Listing

/-!
# Every listed QSO can be addressed

A client knows a QSO by the text its list shows as `id`.  That text leads back to the document if
the `_id` is an object id; it is one that was drawn, unless the body the QSO was made from has an
`_id` or an `id` of its own, which `qso_from_input_dict` prefers.

An account without a callsign is special once more: `qso_from_input_dict` then takes the `_operator`
of the body, and a list of callsigns is found by the query of every one of them, but is not equal to
any.
-/

set_option autoImplicit false

namespace Ollog

open Effects

/-! ## Addressable documents -/

/-- A document that its owner can address: it has an object id, and owner and tombstone are values
that a query matches only as a whole. -/
structure Addressable (d : Doc) : Prop where
  id : ∃ oid, d["_id"]? = some (.oid oid)
  operator : ∃ v, d["_operator"]? = some v ∧ ∀ xs, v ≠ .list xs
  deleted : ∃ b, d["_deleted"]? = some (.bool b)

/-- The fields leave it to the program to draw an id and to name the owner. -/
structure LeavesIdentity (operator : String) (fields : Doc) : Prop where
  id : ∀ k ∈ ["_id", "id"], ∀ v, fields[k]? = some v → v.truthy = false
  operator : operator = "" → ∀ xs, fields["_operator"]? ≠ some (.list xs)

section

variable [UnicodeData]

/-- The bodies of a request leave their identity to the program.  Neither a form nor a file can do
otherwise. -/
def Request.LeavesIdentity : Request → Prop
  | .create body _ user => Ollog.LeavesIdentity user.callsign body.merged
  | .ingest record operator _ _ => Ollog.LeavesIdentity operator record.toDoc
  | .importDuplicates selected user => ∀ record : JsonDoc, .ok record ∈ selected →
    Ollog.LeavesIdentity user.callsign record.fields
  | _ => True

omit [UnicodeData] in
/-- Fields without an internal name leave everything to the program. -/
theorem LeavesIdentity.of_none {operator : String} {fields : Doc}
    (h : ∀ k ∈ ["_id", "id", "_operator"], fields[k]? = none) :
    Ollog.LeavesIdentity operator fields where
  id k hk v hv := by
    rw [h k (by simp only [List.mem_cons] at hk ⊢; tauto)] at hv
    cases hv
  operator _ xs hxs := by
    rw [h "_operator" (by decide)] at hxs
    cases hxs

theorem Request.LeavesIdentity.submits {request : Request} (h : request.LeavesIdentity)
    {fields : Doc} {operator : String} {profile : Option User} {checked : Bool}
    (hsubmit : request.Submits fields operator profile checked) :
    Ollog.LeavesIdentity operator fields := by
  cases request with
  | create body force user =>
    obtain ⟨rfl, rfl, -, -⟩ := hsubmit
    exact h
  | submit form force user =>
    obtain ⟨hfields, -, -, -⟩ := hsubmit
    refine .of_none fun k hk ↦ ?_
    have hnames : ∀ k ∈ ["_id", "id", "_operator"], ¬ isAdifName k = true := by decide
    rw [(retouched_submittedFields hfields).getElem?_eq (hnames k hk),
      Std.ExtTreeMap.getElem?_empty]
  | ingest record operator' profile' source =>
    obtain ⟨rfl, rfl, -, -⟩ := hsubmit
    exact h
  | importAdif raw operator' =>
    obtain ⟨⟨record, hrecord, rfl⟩, -, -, -⟩ := hsubmit
    refine .of_none fun k hk ↦ ?_
    have hnames : ∀ k ∈ ["_id", "id", "_operator"], (k.toList.any Char.isLower) = true := by decide
    rw [getElem?_toDoc, (upperNamed_of_mem_parseAdi hrecord).getElem?_eq_none (hnames k hk),
      Option.map_none]
  | importDuplicates selected user =>
    obtain ⟨⟨record, hrecord, rfl⟩, rfl, -, -⟩ := hsubmit
    exact h record hrecord
  | _ => exact absurd hsubmit (by simp only [Request.Submits, not_false_eq_true])

theorem addressable_newDoc {now : DateTime} {oid : ObjectId} {body qsoDict : Doc}
    {operator : String} {qso : QSO} (hbuilt : Built body operator qsoDict)
    (hbody : LeavesIdentity operator body) (h : qsoFromInputDict now oid qsoDict = .ok qso) :
    Addressable (Doc.toStored (qsoToMongoDoc oid qso)) := by
  have hsame : ∀ k ∈ ["_id", "id", "_operator"], qsoDict[k]? = body[k]? := by
    intro k hk
    have hnames : ∀ k ∈ ["_id", "id", "_operator"], k ∉ derivedNames ∧ isAdifName k = false := by
      decide
    refine (hbuilt.rest k (hnames k hk).1).resolve_right fun ⟨hname, _⟩ ↦ ?_
    cases (hnames k hk).2.symm.trans hname
  have hfalsy : ∀ k ∈ ["_id", "id"], ∀ b, Value.orElse qsoDict[k]? b = b := by
    intro k hk b
    rw [hsame k (by simp only [List.mem_cons] at hk ⊢; tauto)]
    unfold Value.orElse
    split
    · rename_i v hv
      rw [hbody.id k hk v hv, if_neg (by decide)]
    · rfl
  have hlist : ∀ {v : Value}, (∀ xs, v ≠ .list xs) → ∀ xs, v.toStored ≠ .list xs := by
    intro v hv xs
    cases v with
    | list ys => exact absurd rfl (hv ys)
    | dict _ | dbRef _ _ _ _ => exact Value.decodeFields_ne_list _ _
    | _ => simp only [Value.toStored, ne_eq, reduceCtorEq, not_false_eq_true]
  refine ⟨⟨oid, ?_⟩, ?_, ⟨false, ?_⟩⟩
  · rw [Doc.getElem?_toStored, getElem?_newDoc h, if_pos rfl, inputId, hfalsy "_id" (by decide),
      hfalsy "id" (by decide)]
    rfl
  · rw [Doc.getElem?_toStored, getElem?_newDoc h, if_neg (by decide), if_pos rfl, hbuilt.operator_eq,
      Option.map_some]
    refine ⟨_, rfl, hlist ?_⟩
    by_cases hoperator : operator = ""
    · rw [hoperator, hsame "_operator" (by decide)]
      intro xs hxs
      refine hbody.operator hoperator xs ?_
      cases hv : body["_operator"]? with
      | none =>
        rw [hv] at hxs
        cases hxs
      | some v =>
        rw [hv] at hxs
        exact congrArg some hxs
    · rw [Value.orElse, if_pos (Value.truthy_str hoperator)]
      exact fun xs h ↦ by cases h
  · rw [Doc.getElem?_toStored, getElem?_newDoc h]
    simp only [String.reduceEq, if_false, if_true, Doc.get, hbuilt.active, Option.getD_some,
      Option.map_some, Value.toStored]

/-! ## Changes -/

/-- No change writes the id or the owner, or any mark other than the one of a deleted QSO. -/
structure SparesIdentity (updates : Doc) : Prop where
  fixed : ∀ k ∈ ["_id", "_operator", "_created_at"], k ∉ updates
  deleted : ∀ v, updates["_deleted"]? = some v → v = .bool true

theorem Request.Changes.sparesIdentity {request : Request} {qso : QSO} {updates : Doc}
    (h : request.Changes qso updates) : SparesIdentity updates := by
  have hprotected : ∀ k ∈ ["_id", "_operator", "_created_at", "_deleted"],
      k ∈ protectedFields ∧ k ≠ "qso_date_utc" ∧ isAdifName k = false := by decide
  -- A change other than a deletion writes none of the four names.
  have hspare : (∀ k ∈ ["_id", "_operator", "_created_at", "_deleted"], k ∉ updates) →
      SparesIdentity updates := fun hno ↦
    ⟨fun k hk ↦ hno k (by simp only [List.mem_cons] at hk ⊢; tauto), fun v hv ↦ by
      rw [Std.ExtTreeMap.getElem?_eq_none (hno "_deleted" (by decide))] at hv
      cases hv⟩
  cases request with
  | patch qsoId body user =>
    obtain ⟨fields, -, -, hmem, hdate⟩ := patchUpdates_eq_ok h.2
    refine hspare fun k hk hkmem ↦ ?_
    obtain ⟨hprot, hne, -⟩ := hprotected k hk
    have hfields : k ∉ fields := fun hf ↦ ((hmem k).1 hf).2 hprot
    obtain ⟨-, rfl⟩ | ⟨_, _, dt, -, -, -, rfl⟩ := recalculateDate_cases hdate
    · exact hfields hkmem
    · rw [Std.ExtTreeMap.mem_insert, Std.compare_eq_iff_eq] at hkmem
      obtain rfl | hkmem := hkmem
      · exact hne rfl
      · exact hfields hkmem
  | uiPatch qsoId form user =>
    refine hspare fun k hk hkmem ↦ ?_
    obtain ⟨-, hne, hname⟩ := hprotected k hk
    obtain ⟨v, hv⟩ := Option.ne_none_iff_exists'.1 (Doc.mem_iff_ne_none.1 hkmem)
    obtain ⟨hname', -⟩ | ⟨rfl, -⟩ := formUpdates_eq_ok h.2 hv
    · cases hname.symm.trans hname'
    · exact hne rfl
  | delete qsoId user =>
    obtain ⟨-, rfl⟩ := h
    refine ⟨fun k hk hkmem ↦ ?_, fun v hv ↦ ?_⟩
    · rw [Std.ExtTreeMap.mem_insert, Std.compare_eq_iff_eq] at hkmem
      obtain rfl | hkmem := hkmem
      · exact absurd hk (by decide)
      · simp at hkmem
    · rw [Doc.getElem?_insert, if_pos rfl] at hv
      exact (Option.some.inj hv).symm
  | _ => exact absurd h id

theorem Addressable.update {old new updates : Doc} {qso : QSO} (hold : Addressable old)
    (hspare : SparesIdentity updates)
    (h : applySet (Doc.toStored (withRowHash qso updates)) old = .ok new) : Addressable new := by
  have hset : ∀ k ≠ "rowHash", (Doc.toStored (withRowHash qso updates))[k]? =
      updates[k]?.map Value.toStored := by
    intro k hk
    rw [Doc.getElem?_toStored, withRowHash, Doc.getElem?_insert, if_neg hk]
  have hfixed : ∀ k ∈ ["_id", "_operator"], k ∉ Doc.toStored (withRowHash qso updates) := by
    intro k hk
    have hnames : ∀ k ∈ ["_id", "_operator"],
        k ≠ "rowHash" ∧ k ∈ ["_id", "_operator", "_created_at"] := by decide
    rw [Doc.mem_iff_ne_none, hset k (hnames k hk).1,
      Std.ExtTreeMap.getElem?_eq_none (hspare.fixed k (hnames k hk).2)]
    simp
  have hkept : ∀ k ∈ ["_id", "_operator"], ∀ v, old[k]? = some v → v.isContainer = false →
      new[k]? = some v := by
    intro k hk v hv hscalar
    have hplain : ∀ k ∈ ["_id", "_operator"], PlainKey k := by decide
    rw [getElem?_applySet_scalar h (hplain k hk) hv hscalar,
      Std.ExtTreeMap.getElem?_eq_none (hfixed k hk), Option.none_or, hv]
  obtain ⟨oid, hoid⟩ := hold.id
  obtain ⟨v, hv, hno⟩ := hold.operator
  obtain ⟨b, hb⟩ := hold.deleted
  refine ⟨⟨oid, hkept "_id" (by decide) _ hoid rfl⟩, ?_, ?_⟩
  · by_cases hcontainer : v.isContainer = true
    · cases v with
      | list xs => exact absurd rfl (hno xs)
      | dict _ | dbRef _ _ _ _ =>
        obtain ⟨x, hx, hembedded⟩ := isEmbedded_of_applySet h (hfixed "_operator" (by decide))
          ⟨_, hv, rfl⟩
        exact ⟨x, hx, fun xs h ↦ by subst h; cases hembedded⟩
      | _ => cases hcontainer
    · exact ⟨v, hkept "_operator" (by decide) v hv (Bool.not_eq_true _ ▸ hcontainer), hno⟩
  · rw [getElem?_applySet_scalar h (by decide) hb rfl, hset _ (by decide)]
    cases hdel : updates["_deleted"]? with
    | none => exact ⟨b, hb⟩
    | some w =>
      obtain rfl := hspare.deleted w hdel
      exact ⟨true, rfl⟩

theorem addressable_run {fullName : String} {rowHashUnique : Bool} {events : List (Env × Request)}
    (h : ∀ event ∈ events, event.2.LeavesIdentity) :
    ∀ d ∈ (run step (.empty fullName rowHashUnique) events).docs, Addressable d := by
  have hguard : Guarded step (fun _ event ↦ event.2.LeavesIdentity)
    (.empty fullName rowHashUnique) events := guarded_of_forall h _
  refine forall_docs_of_guarded hguard (fun hcond _ _ _ _ _ _ _ hsubmit hbuild hqso ↦ ?_)
    (fun _ _ _ _ _ _ hold _ hchange hnew ↦ ?_) fun _ hd ↦ absurd hd List.not_mem_nil
  · exact addressable_newDoc (built_of_buildQsoDict hbuild) (hcond.submits hsubmit) hqso
  · exact hold.update hchange.sparesIdentity hnew

/-! ## Looking a listed QSO up -/

/-- What a client is shown of a document does not depend on when it is read. -/
theorem qsoToDict_of_hydrated {now now' : DateTime} {d : Doc} {qso qso' : QSO}
    (h : qsoFromMongoDoc now d = .ok qso) (h' : qsoFromMongoDoc now' d = .ok qso') :
    qsoToDict qso = qsoToDict qso' := by
  have hid : qso.id = qso'.id := by
    rw [(QSO.modelConstruct_eq_ok.1 h).2, (QSO.modelConstruct_eq_ok.1 h').2]
  have hshown : ((qso.modelDump.insert "id" (.str qso.id.pyStr)).erase "_id").erase "_created_at" =
      ((qso'.modelDump.insert "id" (.str qso'.id.pyStr)).erase "_id").erase "_created_at" := by
    refine Std.ExtTreeMap.ext_getElem? fun k ↦ ?_
    simp only [Doc.getElem?_erase, Doc.getElem?_insert, getElem?_modelDump_of_hydrated h,
      getElem?_modelDump_of_hydrated h', hid]
    split
    · rfl
    · rename_i hk
      simp only [aliasDefault, hk, if_false]
  simp only [qsoToDict, hshown]

omit [UnicodeData] in
/-- A document that the query for active QSOs finds is its user's, as a whole. -/
theorem Addressable.of_active {d : Doc} (h : Addressable d) {operator : String}
    (hactive : activeQuery operator d = true) :
    d["_operator"]? = some (.str operator) ∧ d["_deleted"]? = some (.bool false) := by
  obtain ⟨v, hv, hno⟩ := h.operator
  obtain ⟨b, hb⟩ := h.deleted
  rw [activeQuery, Bool.and_eq_true, Doc.fieldIs, Doc.fieldIs, Doc.fieldMatches, Doc.fieldMatches,
    hv, hb] at hactive
  obtain ⟨hoperator, hdeleted⟩ := hactive
  constructor
  · rw [hv]
    cases v with
    | list xs => exact absurd rfl (hno xs)
    | str s => simpa using hoperator
    | _ => simp at hoperator
  · rw [hb]
    simpa using hdeleted

omit [UnicodeData] in
/-- **Addressing a QSO by the text of its id** finds the document. -/
theorem ownQso_str {env : Env} {c : Collection} {user : User} {d : Doc} {oid : ObjectId} {qso : QSO}
    (hd : d ∈ c.docs) (hid : d["_id"]? = some (.oid oid))
    (hoperator : d["_operator"]? = some (.str user.callsign))
    (hdeleted : d["_deleted"]? = some (.bool false)) (hqso : qsoFromMongoDoc env.now d = .ok qso) :
    (ownQso env oid.str user : Db _) c = .ok qso c := by
  have hfind : c.docs.find? (fun d ↦ d["_id"]? == some (.oid oid)) = some d :=
    Collection.findById_eq_some.2 ⟨hd, hid⟩
  have hqso' := (QSO.modelConstruct_eq_ok.1 hqso).2
  have hown : ¬ (qso.operatorCallsign ≠ .str user.callsign ∨ qso.isDeleted.truthy = true) := by
    rw [hqso', not_or, not_not]
    simp only [Doc.get, hoperator, hdeleted, Option.getD_some, Value.truthy]
    exact ⟨trivial, by decide⟩
  refine eq_ok_of_wp ?_
  rw [ownQso, ObjectId.ofText_str]
  simp only [wp_bind, getQsoById, wp_liftM, wp_findOne, wp_ofExcept, hfind, qsoFromFound, hqso]
  refine ⟨fun found hfound ↦ ?_, fun exc hexc ↦ (by cases hexc)⟩
  cases hfound
  dsimp only
  rw [if_neg hown]
  exact ⟨rfl, rfl⟩

variable [QueryEngine]

/-- **Every listed QSO is addressable.**  In a log to which no body has brought an id of its own,
the id of a listed QSO is the text of the `_id` of an active document of its owner; `GET` by that
id shows the item again, and `PATCH` and `DELETE`, which look the QSO up in the same way, find
it. -/
theorem listed_addressable {fullName : String} {rowHashUnique : Bool} {events : List (Env × Request)}
    (h : ∀ event ∈ events, event.2.LeavesIdentity) {env : Env} {params : ListParams} {user : User}
    {page : QSOPage} {c' : Collection}
    (hlist : (listQsos env params user : Db _) (run step (.empty fullName rowHashUnique) events) =
      .ok page c') :
    ∀ item ∈ page.items, ∃ s oid d, item["id"]? = some (.str s) ∧ ObjectId.ofText s = some oid ∧
      d ∈ (run step (.empty fullName rowHashUnique) events).docs ∧ d["_id"]? = some (.oid oid) ∧
      (∀ env', (getQso env' s user : Db _) (run step (.empty fullName rowHashUnique) events) =
        .ok item (run step (.empty fullName rowHashUnique) events)) ∧
      ∀ env', ∃ qso, qsoFromMongoDoc env'.now d = .ok qso ∧
        (ownQso env' s user : Db _) (run step (.empty fullName rowHashUnique) events) =
          .ok qso (run step (.empty fullName rowHashUnique) events) := by
  have haddressable : ∀ d ∈ (run step (.empty fullName rowHashUnique) events).docs,
      Addressable d := addressable_run h
  generalize run step (.empty fullName rowHashUnique) events = c at hlist haddressable
  have hlisted : wp (listQsos env params user : Db _) _ _ c := wp_listQsos
  rw [wp, hlist] at hlisted
  intro item hitem
  obtain ⟨d, hd, hactive, qso, hqso, rfl⟩ := hlisted.2 item hitem
  obtain ⟨oid, hid⟩ := (haddressable d hd).id
  obtain ⟨hoperator, hdeleted⟩ := (haddressable d hd).of_active hactive
  have hown : ∀ env' : Env, ∃ qso', qsoFromMongoDoc env'.now d = .ok qso' ∧
      (ownQso env' oid.str user : Db _) c = .ok qso' c := by
    intro env'
    obtain ⟨qso', hqso'⟩ : ∃ qso', qsoFromMongoDoc env'.now d = .ok qso' :=
      hydrates_iff.2 (hydrates_iff.1 ⟨qso, hqso⟩)
    exact ⟨qso', hqso', ownQso_str hd hid hoperator hdeleted hqso'⟩
  refine ⟨oid.str, oid, d, ?_, ObjectId.ofText_str oid, hd, hid, fun env' ↦ ?_, hown⟩
  · rw [getElem?_qsoToDict_id, id_of_hydrated hqso hid]
    rfl
  · obtain ⟨qso', hqso', hlookup⟩ := hown env'
    rw [getQso, run_bind_eq_ok]
    exact ⟨qso', c, hlookup, by rw [qsoToDict_of_hydrated hqso hqso']; rfl⟩

end

/-! ## Two bodies -/

section

attribute [local instance] UnicodeData.ascii

/-- A server that compares texts in upper case, and whose logs have at most one entry. -/
@[reducible] def Sample.engine : QueryEngine where
  caseless text := .ok fun s ↦ containsText (upper text) (upper s)
  sorted _ _ docs := docs
  sorted_perm _ _ _ := .refl _

attribute [local instance] Sample.engine

/-- The contact, with one more field. -/
def Sample.contactWith (k s : String) (hk : k ∉ createDeclared) : QSOCreateRequest :=
  { Sample.contact with
    extra := Sample.oneText k s
    extra_undeclared := fun _ hj hmem ↦ hk (Sample.eq_of_mem_oneText hmem ▸ hj) }

/-- The log of one contact that has been posted with a field more. -/
def Sample.logWith (k s : String) (hk : k ∉ createDeclared) : Collection :=
  run step Sample.log [(Sample.env, .create (Sample.contactWith k s hk) false Sample.user)]

theorem listed_addressable_of_notes : ∃ page c',
    (listQsos Sample.env {} Sample.user : Db _) (Sample.logWith "NOTES" "5 W" (by decide)) =
      .ok page c' ∧ page.items.length = 1 ∧
    ∀ item ∈ page.items, ∃ s oid d, item["id"]? = some (.str s) ∧ ObjectId.ofText s = some oid ∧
      d ∈ (Sample.logWith "NOTES" "5 W" (by decide)).docs ∧ d["_id"]? = some (.oid oid) ∧
      (∀ env', (getQso env' s Sample.user : Db _) (Sample.logWith "NOTES" "5 W" (by decide)) =
        .ok item (Sample.logWith "NOTES" "5 W" (by decide))) ∧
      ∀ env', ∃ qso, qsoFromMongoDoc env'.now d = .ok qso ∧
        (ownQso env' s Sample.user : Db _) (Sample.logWith "NOTES" "5 W" (by decide)) =
          .ok qso (Sample.logWith "NOTES" "5 W" (by decide)) := by
  have hone : (match (listQsos Sample.env {} Sample.user : Db _)
      (Sample.logWith "NOTES" "5 W" (by decide)) with
      | .ok page _ => page.items.length == 1
      | .error _ _ => false) = true := by decide +kernel
  cases hlist : (listQsos Sample.env {} Sample.user : Db _)
      (Sample.logWith "NOTES" "5 W" (by decide)) with
  | error exc c' =>
    rw [hlist] at hone
    cases hone
  | ok page c' =>
    rw [hlist] at hone
    refine ⟨page, c', rfl, of_decide_eq_true hone, listed_addressable (fun event hevent ↦ ?_) hlist⟩
    rw [List.mem_singleton.1 hevent]
    refine .of_none ?_
    decide +kernel

/-- A body with an `_id` of its own makes a QSO that is listed, and not found. -/
theorem listed_not_addressable_of_id : ∃ page c',
    (listQsos Sample.env {} Sample.user : Db _) (Sample.logWith "_id" "abc" (by decide)) =
      .ok page c' ∧
    ∃ item ∈ page.items, item["id"]? = some (.str "abc") ∧ ObjectId.ofText "abc" = none ∧
      (getQso Sample.env "abc" Sample.user : Db _) (Sample.logWith "_id" "abc" (by decide)) =
        .error notFound (Sample.logWith "_id" "abc" (by decide)) := by
  have hshown : (match (listQsos Sample.env {} Sample.user : Db _)
      (Sample.logWith "_id" "abc" (by decide)) with
      | .ok page _ => page.items.any fun item ↦ item["id"]? == some (.str "abc")
      | .error _ _ => false) = true := by decide +kernel
  have hno : ObjectId.ofText "abc" = none := by decide
  cases hlist : (listQsos Sample.env {} Sample.user : Db _)
      (Sample.logWith "_id" "abc" (by decide)) with
  | error exc c' =>
    rw [hlist] at hshown
    cases hshown
  | ok page c' =>
    rw [hlist] at hshown
    obtain ⟨item, hitem, hid⟩ := List.any_eq_true.1 hshown
    refine ⟨page, c', rfl, item, hitem, by simpa using hid, hno, ?_⟩
    refine eq_error_of_wp ?_
    rw [getQso, wp_bind, ownQso, hno]
    exact ⟨rfl, rfl⟩

end

end Ollog

import Mathlib.Data.List.Permutation
import Ollog.Lib.Interleaving
import Ollog.Qso.Log

/-!
# Concurrent edits of one QSO

The requests that edit a QSO read it, compute a `$set` from what they have read, and send it in one
update.  The update merges field by field, so two edits of different fields both survive; but the
row hash and the instant among the fields were computed from the document that was read.  If
another request has changed it in between, they describe a document that never existed.

`Fresh` says when this cannot happen: whatever has changed since the read, the request overwrites.
Schedules all of whose writes are fresh are serialisable (`serial_of_fresh`).
-/

set_option autoImplicit false

namespace Ollog

open Effects Interleaving

/-! ## Edits -/

/-- A request that edits one QSO. -/
inductive EditRequest where
  | patch (qsoId : String) (body : JsonDoc) (user : User)
  | uiPatch (qsoId : String) (form : Form) (user : User)
  | delete (qsoId : String) (user : User)

/-- The request it is. -/
def EditRequest.toRequest : EditRequest → Request
  | patch qsoId body user => .patch qsoId body user
  | uiPatch qsoId form user => .uiPatch qsoId form user
  | delete qsoId user => .delete qsoId user

def EditRequest.qsoId : EditRequest → String
  | patch qsoId _ _ | uiPatch qsoId _ _ | delete qsoId _ => qsoId

def EditRequest.user : EditRequest → User
  | patch _ _ user | uiPatch _ _ user | delete _ user => user

/-- What an edit has read and what it will set, the row hash apart. -/
structure Edit where
  qso : QSO
  updates : Doc

section

variable [UnicodeData]

/-- The updates an edit makes of the QSO it has read. -/
def EditRequest.updates (request : EditRequest) (qso : QSO) : Except PyErr Doc :=
  match request with
  | patch _ body user => patchUpdates user qso body.fields
  | uiPatch _ form user => formUpdates user qso form
  | delete _ _ => .ok ((∅ : Doc).insert "_deleted" (.bool true))

/-- The first half of an edit: read the QSO and compute the updates.  Without updates the request
ends there. -/
def EditRequest.plan (env : Env) (request : EditRequest) (c : Collection) : Option Edit :=
  match (ownQso env request.qsoId request.user : Db _) c with
  | .error _ _ => none
  | .ok qso _ =>
    match request.updates qso with
    | .error _ => none
    | .ok updates => if updates.isEmpty then none else some ⟨qso, updates⟩

/-- The second half of an edit: one update. -/
def Edit.write (edit : Edit) (c : Collection) : Option Collection :=
  match c.update edit.qso.id (withRowHash edit.qso edit.updates) with
  | .ok c' => some c'
  | .error _ => none

/-- A family of edits. -/
def edits {ι : Type} (requests : ι → Env × EditRequest) : Program Collection ι Edit where
  plan i := (requests i).2.plan (requests i).1
  write := Edit.write

/-! ## The two halves make up the handler -/

omit [UnicodeData] in
theorem ownQso_store (env : Env) (qsoId : String) (user : User) (c : Collection) :
    wp (ownQso env qsoId user : Db _) (fun qso c' ↦ c' = c ∧ Addresses qsoId user qso)
      (fun _ c' ↦ c' = c) c :=
  wp_ownQso (fun _ _ _ _ haddr ↦ ⟨rfl, haddr⟩) fun _ ↦ rfl

/-- What is left when the updates of an edit have been computed, or could not be. -/
def editResult (qso : QSO) (updates : Except PyErr Doc) (c : Collection) : Collection :=
  match updates with
  | .error _ => c
  | .ok updates => if updates.isEmpty then c else (Edit.write ⟨qso, updates⟩ c).getD c

theorem write_of_ok {qso : QSO} {updates : Doc} {c c' : Collection}
    (h : c.update qso.id (withRowHash qso updates) = .ok c') :
    Edit.write ⟨qso, updates⟩ c = some c' := by
  simp only [Edit.write, h]

theorem write_of_error {qso : QSO} {updates : Doc} {c : Collection} {exc : PyErr}
    (h : c.update qso.id (withRowHash qso updates) = .error exc) :
    Edit.write ⟨qso, updates⟩ c = none := by
  simp only [Edit.write, h]

variable {env : Env} {c : Collection} {qsoId : String} {user : User} {qso : QSO}

theorem after_patchQso {body : JsonDoc} (hown : (ownQso env qsoId user : Db _) c = .ok qso c) :
    after (patchQso env qsoId body user : Db _) c =
      editResult qso (patchUpdates user qso body.fields) c := by
  rw [patchQso]
  rw [after_bind_ok hown]
  refine after_of_wp (P := (· = editResult qso (patchUpdates user qso body.fields) c)) ?_
  have hread : ∀ {respond : Option QSO → Db Doc} {c' result : Collection}, c' = result →
      (∀ found, wp (respond found) (fun _ c'' ↦ c'' = result) (fun _ c'' ↦ c'' = result) c') →
      wp (getQsoById env qso.id >>= respond)
        (fun _ c'' ↦ c'' = result) (fun _ c'' ↦ c'' = result) c' := by
    intro respond c' result h hrespond
    rw [wp_bind]
    exact wp_getQsoById (hrespond none) (fun _ _ _ updated _ ↦ hrespond (some updated)) fun _ ↦ h
  rw [wp_bind, wp_ofExcept]
  refine ⟨fun updates hupdates ↦ ?_, fun exc hexc ↦ by rw [hexc, editResult]⟩
  simp only [wp_ite, wp_bind, wp_tryCatch]
  rw [hupdates, editResult]
  refine ⟨fun hsome ↦ ?_, fun hempty ↦ ?_⟩
  · rw [if_neg (by simpa using hsome)]
    refine wp_updateQsoFields (fun exc hexc ↦ wp_patchFailed fun _ ↦ ?_) fun c' hc' ↦ ?_
    · rw [withRowHash_withRowHash] at hexc
      rw [write_of_error hexc, Option.getD_none]
    · rw [withRowHash_withRowHash] at hc'
      rw [write_of_ok hc', Option.getD_some]
      exact ⟨fun _ ↦ wp_pure.2 (hread rfl fun found ↦ by cases found <;> rfl), fun exc ↦ wp_patchFailed fun _ ↦ rfl⟩
  · rw [if_pos (by simpa using hempty)]
    exact wp_bind.1 (hread rfl fun found ↦ by cases found <;> rfl)

theorem after_qsoUpdate {form : Form} (hown : (ownQso env qsoId user : Db _) c = .ok qso c) :
    after (qsoUpdate env qsoId form user : Db _) c = editResult qso (formUpdates user qso form) c := by
  rw [qsoUpdate]
  rw [after_bind_ok hown]
  refine after_of_wp (P := (· = editResult qso (formUpdates user qso form) c)) ?_
  rw [wp_bind, wp_ofExcept]
  refine ⟨fun updates hupdates ↦ ?_, fun exc hexc ↦ by rw [hexc, editResult]⟩
  simp only [wp_ite, wp_throw, wp_bind, wp_tryCatch]
  rw [hupdates, editResult]
  refine ⟨fun hempty ↦ by rw [if_pos hempty], fun hsome ↦ ?_⟩
  rw [if_neg hsome]
  refine wp_updateQsoFields (fun exc hexc ↦ ?_) fun c' hc' ↦ ?_
  · rw [withRowHash_withRowHash] at hexc
    rw [write_of_error hexc, Option.getD_none]
    exact wp_ite.2 ⟨fun _ ↦ rfl, fun _ ↦ rfl⟩
  · rw [withRowHash_withRowHash] at hc'
    rw [write_of_ok hc', Option.getD_some]
    exact ⟨fun _ ↦ wp_pure.2 (wp_bind.2 (wp_getQsoById rfl (fun _ _ _ _ _ ↦ rfl) fun _ ↦ rfl)),
      fun exc ↦ wp_ite.2 ⟨fun _ ↦ rfl, fun _ ↦ rfl⟩⟩

theorem after_deleteQso (hown : (ownQso env qsoId user : Db _) c = .ok qso c) :
    after (deleteQso env qsoId user : Db _) c =
      editResult qso (.ok ((∅ : Doc).insert "_deleted" (.bool true))) c := by
  rw [deleteQso]
  rw [after_bind_ok hown]
  refine after_of_wp
    (P := (· = editResult qso (.ok ((∅ : Doc).insert "_deleted" (.bool true))) c)) ?_
  rw [editResult, if_neg (by simp), softDeleteQso, wp_liftM, wp_updateOne]
  exact ⟨fun c' hc' ↦ by rw [write_of_ok hc', Option.getD_some],
    fun exc hexc ↦ by rw [write_of_error hexc, Option.getD_none]⟩

/-- The handler of an edit, in one. -/
theorem after_handle (env : Env) (c : Collection) (request : EditRequest) : after (handle env request.toRequest) c =
    match (ownQso env request.qsoId request.user : Db _) c with
    | .error _ _ => c
    | .ok qso _ => editResult qso (request.updates qso) c := by
  cases hown : (ownQso env request.qsoId request.user : Db _) c with
  | error exc t =>
    have hstore := ownQso_store env request.qsoId request.user c
    rw [wp, hown] at hstore
    subst hstore
    cases request with
    | patch qsoId body user => rw [EditRequest.toRequest, handle, after_discard]; exact after_bind_error hown
    | uiPatch qsoId form user => rw [EditRequest.toRequest, handle, after_discard]; exact after_bind_error hown
    | delete qsoId user => exact after_bind_error hown
  | ok qso t =>
    have hstore := ownQso_store env request.qsoId request.user c
    rw [wp, hown] at hstore
    obtain ⟨rfl, -⟩ := hstore
    cases request with
    | patch qsoId body user =>
      rw [EditRequest.toRequest, handle, after_discard]
      exact after_patchQso hown
    | uiPatch qsoId form user =>
      rw [EditRequest.toRequest, handle, after_discard]
      exact after_qsoUpdate hown
    | delete qsoId user => exact after_deleteQso hown

/-- **A handler run without interruption is its two halves, one after the other.** -/
theorem step_eq_serial {ι : Type} (requests : ι → Env × EditRequest) (c : Collection) (i : ι) :
    step c ((requests i).1, (requests i).2.toRequest) = (edits requests).serial c i := by
  rw [step, after_handle]
  dsimp only [Program.serial, edits]
  rw [EditRequest.plan]
  cases (ownQso (requests i).1 (requests i).2.qsoId (requests i).2.user : Db _) c with
  | error exc t => rfl
  | ok qso t =>
    dsimp only
    cases (requests i).2.updates qso with
    | error exc => rfl
    | ok updates =>
      rw [editResult]
      dsimp only
      split <;> rfl

/-- A patch with nothing to set succeeds, and has its place in any order: it changes nothing,
whenever it comes. -/
theorem step_patch_of_isEmpty {body : JsonDoc} {updates : Doc} {q : QSO}
    (h : patchUpdates user q body.fields = .ok updates) (hempty : updates.isEmpty = true) :
    step c (env, .patch qsoId body user) = c := by
  obtain ⟨fields, hfields, -, -, hrecalc⟩ := patchUpdates_eq_ok h
  have hnone : fields = ∅ := by
    obtain ⟨-, rfl⟩ | ⟨_, _, _, -, -, -, rfl⟩ := recalculateDate_cases hrecalc
    · exact Std.ExtTreeMap.isEmpty_iff.1 hempty
    · simp at hempty
  have hany : ∀ qso, patchUpdates user qso body.fields = .ok ∅ := by
    intro qso
    have hbind : patchUpdates user qso body.fields =
        patchedFields user body.fields >>= recalculateDate qso := rfl
    have hnot : ¬ ("QSO_DATE" ∈ (∅ : Doc) ∨ "TIME_ON" ∈ (∅ : Doc)) := by simp
    have hrecalc' : recalculateDate qso ∅ = .ok ∅ := by rw [recalculateDate, if_neg hnot]
    rw [hbind, hfields, hnone]
    exact hrecalc'
  have hafter := after_handle env c (.patch qsoId body user)
  rw [step]
  refine hafter.trans ?_
  split
  · rfl
  · rename_i qso _ _
    have hupdates : EditRequest.updates (.patch qsoId body user) qso = .ok ∅ := hany qso
    rw [hupdates, editResult, if_pos (by simp)]

/-! ## Fresh edits -/

/-- The request brings a value of its own for one of the texts of the instant. -/
def EditRequest.Brings (request : EditRequest) (k : String) : Prop :=
  match request with
  | patch _ body user => ∃ fields v, patchedFields user body.fields = .ok fields ∧
      fields[k]? = some v ∧ v.truthy = true
  | uiPatch _ form _ => nonBlank (formParam form k) ≠ none
  | delete _ _ => False

/-- The edit sets a field, whatever it was before. -/
def Edit.Overwrites (request : EditRequest) (edit : Edit) (k : String) : Prop :=
  k ∈ edit.updates ∧ (k ∈ instantNames → request.Brings k)

/-- A deletion of a QSO that is deleted already, with the row hash of what it is. -/
def Redeletes (request : EditRequest) (d : Doc) (qso : QSO) : Prop :=
  (∃ qsoId user, request = .delete qsoId user) ∧ d["_deleted"]? = some (.bool true) ∧
    d["rowHash"]? = some (.str (canonicalDocumentHash qso.modelDump))

/-- The store an edit is about to write to still has its QSO.  What has changed in it since it was
read the edit overwrites, and the request would find it still, unless both delete it. -/
def Fresh (env : Env) (request : EditRequest) (edit : Edit) (c : Collection) : Prop :=
  ∃ d ∈ c.docs, d["_id"]? = some edit.qso.id ∧ ∃ qso, qsoFromMongoDoc env.now d = .ok qso ∧
    (∀ k ∉ hashExcludedFields,
      edit.qso.modelDump[k]? = qso.modelDump[k]? ∨ edit.Overwrites request k) ∧
    (Addresses request.qsoId request.user qso ∨ Redeletes request d qso)

theorem plan_eq_some {request : EditRequest} {edit : Edit}
    (h : request.plan env c = some edit) : Addresses request.qsoId request.user edit.qso ∧
      request.updates edit.qso = .ok edit.updates ∧ edit.updates.isEmpty = false := by
  rw [EditRequest.plan] at h
  split at h
  · cases h
  rename_i qso t hown
  split at h
  · cases h
  rename_i updates hupdates
  split at h
  · cases h
  rename_i hempty
  cases h
  have hstore := ownQso_store env request.qsoId request.user c
  rw [wp, hown] at hstore
  exact ⟨hstore.2, hupdates, by simpa using hempty⟩

omit [UnicodeData] in
/-- Looking a stored QSO up by its id. -/
theorem ownQso_of_mem (user : User) {d : Doc} {oid : ObjectId} (hoid : ObjectId.ofText qsoId = some oid)
    (hd : d ∈ c.docs) (hid : d["_id"]? = some (.oid oid))
    (hqso : qsoFromMongoDoc env.now d = .ok qso) :
    (ownQso env qsoId user : Db _) c =
      if qso.operatorCallsign ≠ .str user.callsign ∨ qso.isDeleted.truthy = true then
        .error notFound c
      else .ok qso c := by
  have hfind : c.docs.find? (fun d ↦ d["_id"]? == some (.oid oid)) = some d :=
    Collection.findById_eq_some.2 ⟨hd, hid⟩
  have hfound : qsoFromFound env.now (some d) = .ok (some qso) := by
    rw [qsoFromFound, hqso]
    rfl
  have hget : wp (getQsoById env (.oid oid) : Db _) (fun found c' ↦ found = some qso ∧ c' = c)
      (fun _ _ ↦ False) c := by
    simp only [getQsoById, wp_bind, wp_liftM, wp_findOne, hfind, wp_ofExcept, hfound, Except.ok.injEq,
      forall_eq', and_self, reduceCtorEq, false_imp_iff, implies_true]
  rw [ownQso]
  rw [hoid]
  split
  · rename_i hnot
    refine eq_error_of_wp (wp_bind.2 (wp_mono hget ?_ fun _ _ h ↦ absurd h id))
    rintro _ _ ⟨rfl, rfl⟩
    exact wp_ite.2 ⟨fun _ ↦ wp_throw.2 ⟨rfl, rfl⟩, fun h ↦ absurd hnot h⟩
  · rename_i hown
    refine eq_ok_of_wp (wp_bind.2 (wp_mono hget ?_ fun _ _ h ↦ h))
    rintro _ _ ⟨rfl, rfl⟩
    exact wp_ite.2 ⟨fun h ↦ absurd h hown, fun _ ↦ wp_pure.2 ⟨rfl, rfl⟩⟩

/-- A test for freshness, when the texts of the instant have not changed. -/
def Edit.isFresh (env : Env) (request : EditRequest) (edit : Edit) (c : Collection) : Bool :=
  c.docs.any fun d ↦ match qsoFromMongoDoc env.now d with
    | .error _ => false
    | .ok qso => decide (d["_id"]? = some edit.qso.id ∧
        (∀ k ∈ edit.qso.modelDump.keys ++ qso.modelDump.keys, k ∉ hashExcludedFields →
          edit.qso.modelDump[k]? = qso.modelDump[k]? ∨ k ∈ edit.updates ∧ k ∉ instantNames) ∧
        (ObjectId.ofText request.qsoId).map Value.oid = some qso.id ∧
        qso.operatorCallsign = .str request.user.callsign ∧ qso.isDeleted.truthy = false)

theorem fresh_of_isFresh {request : EditRequest} {edit : Edit}
    (h : edit.isFresh env request c = true) : Fresh env request edit c := by
  obtain ⟨d, hd, h⟩ := List.any_eq_true.1 h
  split at h
  · cases h
  rename_i qso hqso
  obtain ⟨hid, hagree, haddr⟩ := of_decide_eq_true h
  refine ⟨d, hd, hid, qso, hqso, fun k hk ↦ ?_, .inl ⟨haddr.1, haddr.2.1, haddr.2.2⟩⟩
  by_cases hmem : k ∈ edit.qso.modelDump ∨ k ∈ qso.modelDump
  · have hkeys : k ∈ edit.qso.modelDump.keys ++ qso.modelDump.keys := by
      rwa [List.mem_append, Std.ExtTreeMap.mem_keys, Std.ExtTreeMap.mem_keys]
    exact (hagree k hkeys hk).imp_right fun ⟨hset, hnot⟩ ↦ ⟨hset, fun hin ↦ absurd hin hnot⟩
  · rw [not_or] at hmem
    rw [Std.ExtTreeMap.getElem?_eq_none hmem.1, Std.ExtTreeMap.getElem?_eq_none hmem.2]
    exact .inl rfl

theorem atWrites_of_isFresh {ι : Type} [DecidableEq ι] {requests : ι → Env × EditRequest} {i : ι}
    {s : State Collection ι Edit}
    (h : (s.pending i).all (fun edit ↦ edit.isFresh (requests i).1 (requests i).2 s.store) = true) :
    (edits requests).AtWrites (fun i edit c ↦ Fresh (requests i).1 (requests i).2 edit c) s
      (.write i) := by
  intro edit t hpending _
  rw [hpending] at h
  exact fresh_of_isFresh h

/-! ## Fresh edits are as good as serial -/

theorem rowHashForUpdatedQso_congr {q q' : QSO} {updates : Doc}
    (h : ∀ k ∉ hashExcludedFields, q.modelDump[k]? = q'.modelDump[k]? ∨ k ∈ updates) :
    rowHashForUpdatedQso q updates = rowHashForUpdatedQso q' updates := by
  refine canonicalDocumentHash_congr fun k hk ↦ congrArg (Option.map Value.canonicalize) ?_
  rw [Doc.getElem?_update, Doc.getElem?_update]
  obtain heq | hmem := h k hk
  · rw [heq]
  · rw [Std.ExtTreeMap.getElem?_eq_some_getElem hmem, Option.some_or, Option.some_or]

omit [UnicodeData] in
/-- A text of the instant is looked up among the extra fields, in a dump as well. -/
theorem getElem?_modelDump_instant (q : QSO) {k : String} (hk : k ∈ instantNames) :
    q.modelDump[k]? = q.modelExtra[k]? ∧ q.modelDumpByName[k]? = q.modelExtra[k]? := by
  simp only [instantNames, List.mem_cons, List.not_mem_nil, or_false] at hk
  obtain rfl | rfl := hk <;>
    exact ⟨by rw [QSO.getElem?_modelDump]; simp only [String.reduceEq, if_false, Option.or_none],
      q.getElem?_modelDumpByName (by decide)⟩

theorem recalculateDate_congr {q q' : QSO} {fields : Doc}
    (h : ∀ k ∈ instantNames, patchedText q fields k = patchedText q' fields k) :
    recalculateDate q fields = recalculateDate q' fields := by
  have hdate := h "QSO_DATE" (by decide)
  have htime := h "TIME_ON" (by decide)
  rw [patchedText, patchedText] at hdate htime
  rw [recalculateDate, recalculateDate, hdate, htime]

theorem formUpdates_congr {q q' : QSO} {form : Form}
    (h : ∀ k ∈ instantNames, formText q form k = formText q' form k) :
    formUpdates user q form = formUpdates user q' form := by
  simp only [formUpdates, formDate, h "QSO_DATE" (by decide), h "TIME_ON" (by decide)]

/-- A request computes the same updates of two QSOs that differ in nothing but what it brings
along itself. -/
theorem updates_congr {request : EditRequest} {q q' : QSO}
    (h : ∀ k ∈ instantNames, q.modelDump[k]? = q'.modelDump[k]? ∨ request.Brings k) :
    request.updates q = request.updates q' := by
  have hextra : ∀ k ∈ instantNames, q.modelDump[k]? = q'.modelDump[k]? →
      q.modelExtra[k]? = q'.modelExtra[k]? := fun k hk heq ↦ by
    rwa [(getElem?_modelDump_instant q hk).1, (getElem?_modelDump_instant q' hk).1] at heq
  cases request with
  | patch qsoId body user =>
    have hbind : ∀ q, EditRequest.updates (.patch qsoId body user) q =
        patchedFields user body.fields >>= recalculateDate q := fun _ ↦ rfl
    rw [hbind, hbind]
    cases hfields : patchedFields user body.fields with
    | error exc =>
      have herror : ∀ q, (Except.error exc >>= recalculateDate q) = .error exc := fun _ ↦ rfl
      rw [herror, herror]
    | ok fields =>
      have hok : ∀ q, (Except.ok fields >>= recalculateDate q) = recalculateDate q fields :=
        fun _ ↦ rfl
      rw [hok, hok]
      refine recalculateDate_congr fun k hk ↦ ?_
      rw [patchedText, patchedText]
      obtain heq | ⟨fields', v, hfields', hv, htruthy⟩ := h k hk
      · rw [(getElem?_modelDump_instant q hk).2, (getElem?_modelDump_instant q' hk).2,
          hextra k hk heq]
      · obtain rfl := Except.ok.inj (hfields.symm.trans hfields')
        rw [hv, Value.orElse, Value.orElse, if_pos htruthy, if_pos htruthy]
  | uiPatch qsoId form user =>
    refine formUpdates_congr fun k hk ↦ ?_
    rw [formText, formText]
    obtain heq | hform := h k hk
    · rw [Doc.get, Doc.get, hextra k hk heq]
    · obtain ⟨s, hs⟩ := Option.ne_none_iff_exists'.1 hform
      rw [hs, Option.map_some, Option.getD_some, Option.getD_some]
  | delete qsoId user => rfl

/-- A repeated deletion writes what is there already. -/
theorem write_of_redeletes {request : EditRequest} {d : Doc} {q : QSO} {c' : Collection}
    (hd : d ∈ c.docs) (hid : d["_id"]? = some qso.id) (hq : qsoFromMongoDoc env.now d = .ok q)
    (hagree : ∀ k ∉ hashExcludedFields, k ≠ "_deleted" → qso.modelDump[k]? = q.modelDump[k]?)
    (hredeletes : Redeletes request d q)
    (hwrite : Edit.write ⟨qso, (∅ : Doc).insert "_deleted" (.bool true)⟩ c = some c') : c' = c := by
  obtain ⟨-, hdeleted, hhash⟩ := hredeletes
  have hset : rowHashForUpdatedQso qso ((∅ : Doc).insert "_deleted" (.bool true)) =
      canonicalDocumentHash q.modelDump := by
    refine canonicalDocumentHash_congr fun k hk ↦ congrArg (Option.map Value.canonicalize) ?_
    rw [Doc.getElem?_update, Doc.getElem?_insert, Std.ExtTreeMap.getElem?_empty]
    by_cases hkey : k = "_deleted"
    · subst hkey
      rw [getElem?_modelDump_of_hydrated hq, if_pos (by decide : "_deleted" ∈ aliasNames), Doc.get,
        hdeleted]
      rfl
    · rw [if_neg hkey, Option.none_or, hagree k hk hkey]
  rw [Edit.write] at hwrite
  split at hwrite
  · rename_i c'' hupdate
    obtain rfl := Option.some.inj hwrite
    refine Collection.update_eq_self hupdate hd hid ?_
    have hget : ∀ k, (Doc.toStored (withRowHash qso
        ((∅ : Doc).insert "_deleted" (.bool true))))[k]? =
        if k = "rowHash" then d["rowHash"]? else if k = "_deleted" then d["_deleted"]? else none := by
      intro k
      rw [Doc.getElem?_toStored, withRowHash, Doc.getElem?_insert, Doc.getElem?_insert,
        Std.ExtTreeMap.getElem?_empty, hset, hdeleted, hhash]
      split
      · rfl
      · split <;> rfl
    rw [applySet_of_plain fun k hk ↦ ?_]
    · refine congrArg Except.ok (Std.ExtTreeMap.ext_getElem? fun k ↦ ?_)
      rw [Doc.getElem?_update, hget]
      split <;> rename_i hrow
      · rw [hrow, Option.or_self]
      · split <;> rename_i hkey
        · rw [hkey, Option.or_self]
        · rw [Option.none_or]
    · rw [Doc.mem_iff_ne_none, hget] at hk
      split at hk <;> rename_i hrow
      · exact hrow ▸ by decide
      · split at hk <;> rename_i hkey
        · exact hkey ▸ by decide
        · exact absurd rfl hk
  · cases hwrite

/-- **One fresh write** does what its request would do if it came now. -/
theorem serial_of_fresh_write {ι : Type} {requests : ι → Env × EditRequest} {i : ι}
    {request : EditRequest} {edit : Edit} {t c' : Collection} (hi : requests i = (env, request))
    (hplan : request.plan env t = some edit) (hfresh : Fresh env request edit c)
    (hwrite : edit.write c = some c') : (edits requests).serial c i = c' := by
  have hserial : ∀ p, request.plan env c = p → (edits requests).serial c i =
      (p.map fun edit ↦ (edit.write c).getD c).getD c := by
    rintro _ rfl
    rw [Program.serial, edits]
    dsimp only
    rw [hi]
    cases request.plan env c <;> rfl
  obtain ⟨d, hd, hid, q, hq, hagree, hstill⟩ := hfresh
  obtain ⟨haddr, hupdates, hsome⟩ := plan_eq_some hplan
  obtain ⟨oid, hoid, hqid⟩ := Option.map_eq_some_iff.1 haddr.id
  have hown := ownQso_of_mem request.user hoid hd (hid.trans (congrArg some hqid.symm)) hq
  obtain haddr' | hredeletes := hstill
  · -- The request finds its QSO, computes the same updates and the same row hash.
    have hid' : q.id = edit.qso.id := Option.some.inj (haddr'.id.symm.trans haddr.id)
    have hsame : request.updates q = .ok edit.updates := by
      rw [← hupdates]
      refine (updates_congr fun k hk ↦ ?_).symm
      have hnot : k ∉ hashExcludedFields := by
        simp only [instantNames, List.mem_cons, List.not_mem_nil, or_false] at hk
        obtain rfl | rfl := hk <;> decide
      exact (hagree k hnot).imp_right fun h ↦ h.2 hk
    have hhash : withRowHash q edit.updates = withRowHash edit.qso edit.updates := by
      rw [withRowHash, withRowHash,
        rowHashForUpdatedQso_congr fun k hk ↦ (hagree k hk).imp_right And.left]
    rw [if_neg (by simp [haddr'.own, haddr'.active])] at hown
    have hnow : request.plan env c = some ⟨q, edit.updates⟩ := by
      simp only [EditRequest.plan, hown, hsame, hsome, Bool.false_eq_true, if_false]
    have hwrite' : Edit.write ⟨q, edit.updates⟩ c = some c' := by
      rw [← hwrite, Edit.write, Edit.write, hid', hhash]
    rw [hserial _ hnow, Option.map_some, Option.getD_some, hwrite', Option.getD_some]
  · -- The request finds it deleted, and what was written was there already.
    have hredeletes' := hredeletes
    obtain ⟨⟨qsoId, user, rfl⟩, hdeleted, -⟩ := hredeletes'
    obtain ⟨qso, updates⟩ := edit
    obtain rfl := Except.ok.inj hupdates
    have hisDeleted : q.isDeleted = .bool true := by
      rw [(QSO.modelConstruct_eq_ok.1 hq).2]
      dsimp only
      rw [Doc.get, hdeleted, Option.getD_some]
    rw [if_pos (.inr (by rw [hisDeleted]; rfl))] at hown
    have hnow : EditRequest.plan env (.delete qsoId user) c = none := by
      simp only [EditRequest.plan, hown]
    rw [hserial _ hnow, Option.map_none, Option.getD_none]
    refine (write_of_redeletes hd hid hq (fun k hk hne ↦ ?_) hredeletes hwrite).symm
    obtain heq | ⟨hmem, -⟩ := hagree k hk
    · exact heq
    · rw [Doc.mem_iff_ne_none, Doc.getElem?_insert, if_neg hne, Std.ExtTreeMap.getElem?_empty] at hmem
      exact absurd rfl hmem

theorem run_serial {ι : Type} (requests : ι → Env × EditRequest) (order : List ι)
    (c : Collection) : run (edits requests).serial c order =
      run step c (order.map fun i ↦ ((requests i).1, (requests i).2.toRequest)) := by
  induction order generalizing c with
  | nil => rfl
  | cons i order ih => rw [List.map_cons, run_cons, run_cons, step_eq_serial, ih]

/-- **Concurrent edits are serialisable as long as they are fresh.**  Whatever the order of reads
and writes, the collection ends up as if the requests whose updates went through had run one after
another, in the order of their updates. -/
theorem serial_of_fresh {ι : Type} [DecidableEq ι] (requests : ι → Env × EditRequest)
    (c : Collection) {events : List (Event ι)}
    (h : Guarded (edits requests).step ((edits requests).AtWrites fun i edit c ↦
      Fresh (requests i).1 (requests i).2 edit c) (start c) events) :
    (run (edits requests).step (start c) events).store =
      run step c ((run (edits requests).step (start c) events).committed.map fun i ↦
        ((requests i).1, (requests i).2.toRequest)) := by
  have hcond : ∀ i p t₀ t t', (edits requests).plan i t₀ = some p →
      Fresh (requests i).1 (requests i).2 p t → (edits requests).write p t = some t' →
      (edits requests).serial t i = t' := fun _ _ _ _ _ hplan hfresh hwrite ↦
    serial_of_fresh_write rfl hplan hfresh hwrite
  rw [Program.run_eq_serial hcond h, run_serial]

end

section

attribute [local instance] UnicodeData.ascii

/-- Two patches of the contact, at the same time. -/
def Sample.patches (k k' s s' : String) (i : Bool) : Env × EditRequest :=
  (Sample.env, .patch Sample.firstId (if i then Sample.oneText k' s' else Sample.oneText k s)
    Sample.user)

/-- Both read before either writes. -/
def Sample.overlap : List (Event Bool) := [.read false, .read true, .write false, .write true]

/-- The log with the contact. -/
def Sample.logged : Collection :=
  run step Sample.log [(Sample.env, .create Sample.contact false Sample.user)]

theorem serial_of_patched_notes :
    let patches := Sample.patches "NOTES" "NOTES" "first" "second"
    let s := run (edits patches).step (start Sample.logged) Sample.overlap
    s.committed = [false, true] ∧ s.store = run step Sample.logged
      ([false, true].map fun i ↦ ((patches i).1, (patches i).2.toRequest)) := by
  intro patches s
  have hcommitted : s.committed = [false, true] := by decide +kernel
  have hguard : Guarded (edits patches).step ((edits patches).AtWrites fun i edit c ↦
      Fresh (patches i).1 (patches i).2 edit c) (start Sample.logged) Sample.overlap := by
    refine ⟨trivial, trivial, atWrites_of_isFresh ?_, atWrites_of_isFresh ?_, trivial⟩ <;>
      decide +kernel
  refine ⟨hcommitted, ?_⟩
  rw [← hcommitted]
  exact serial_of_fresh patches Sample.logged hguard

/-- Two patches of different fields go through, and leave a QSO with the row hash and the instant of
neither order. -/
theorem not_serial_of_overlap :
    let patches := Sample.patches "QSO_DATE" "TIME_ON" "20240202" "1300"
    let s := run (edits patches).step (start Sample.logged) Sample.overlap
    s.committed = [false, true] ∧ ∀ order : List Bool, order.Perm s.committed →
      s.store.docs ≠ (run step Sample.logged
        (order.map fun i ↦ ((patches i).1, (patches i).2.toRequest))).docs := by
  intro patches s
  have hcommitted : s.committed = [false, true] := by decide +kernel
  refine ⟨hcommitted, fun order horder ↦ ?_⟩
  rw [hcommitted, List.perm_pair] at horder
  obtain rfl | rfl := horder <;> decide +kernel

end

end Ollog

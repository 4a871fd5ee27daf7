import Ollog.Qso.Log

/-!
# Two minutes apart

Every path into a log that is not forced asks `find_duplicate` first, and inserts only when the
answer is no.  So no two active QSOs of one operator with the same call, band and mode are at most
two minutes apart, whatever the paths and however many records one file brings.

What the query compares has to be what is stored for this to hold, and for the operator that is so
only if there is one: of an empty callsign `qso_from_input_dict` stores `None`, which the query for
the empty callsign does not find.
-/

set_option autoImplicit false

namespace Ollog

open Effects

/-! ## Separation -/

/-- Two instants at most two minutes apart. -/
def withinTwoMinutes (v w : Option Value) : Bool :=
  match v, w with
  | some (.datetime dt), some (.datetime dt') =>
    decide (dt.utc - dt'.utc ≤ twoMinutes ∧ dt'.utc - dt.utc ≤ twoMinutes)
  | _, _ => false

/-- Two active documents of one operator that describe the same contact. -/
@[mk_iff]
structure SameContact (d e : Doc) : Prop where
  active : Doc.fieldIs d "_deleted" (.bool false) = true
  active' : Doc.fieldIs e "_deleted" (.bool false) = true
  operator : d["_operator"]? = e["_operator"]?
  call : d["CALL"]? = e["CALL"]?
  band : d["BAND"]? = e["BAND"]?
  mode : d["MODE"]? = e["MODE"]?
  near : withinTwoMinutes d["qso_date_utc"]? e["qso_date_utc"]? = true

instance (d e : Doc) : Decidable (SameContact d e) := decidable_of_iff _ (sameContact_iff d e).symm

theorem SameContact.symm {d e : Doc} (h : SameContact d e) : SameContact e d := by
  refine ⟨h.active', h.active, h.operator.symm, h.call.symm, h.band.symm, h.mode.symm, ?_⟩
  have hnear := h.near
  unfold withinTwoMinutes at hnear ⊢
  split at hnear
  · rename_i hd he
    rw [decide_eq_true_eq] at hnear
    rw [hd, he]
    exact decide_eq_true hnear.symm
  · cases hnear

/-- No two documents of a log describe the same contact. -/
def Separated (c : Collection) : Prop :=
  ∀ d ∈ c.docs, ∀ e ∈ c.docs, d ≠ e → ¬ SameContact d e

instance : DecidablePred Separated := fun c ↦
  inferInstanceAs (Decidable (∀ d ∈ c.docs, ∀ e ∈ c.docs, d ≠ e → ¬ SameContact d e))

/-! ## The query -/

theorem fieldIs_of_eq {d : Doc} {k : String} {v : Value} (h : d[k]? = some v) :
    Doc.fieldIs d k v = true := by
  rw [Doc.fieldIs, Doc.fieldMatches, h]
  cases v <;> simp

/-- Two minutes before and after a whole number of milliseconds the server cuts nothing off. -/
theorem utc_toStored_add {dt bound : DateTime} {delta : Int} (h : dt.utc % 1000 = 0)
    (hdelta : delta % 1000 = 0) (hbound : dt.add delta = .ok bound) :
    bound.toStored.utc = dt.utc + delta := by
  rw [DateTime.add] at hbound
  split at hbound
  · cases hbound
    simp only [DateTime.toStored, DateTime.utc, Option.getD_none] at h ⊢
    omega
  · cases hbound

/-- **The query finds every document that describes the same contact.** -/
theorem duplicateQuery_of_sameContact {operator : String} {call band mode : Value}
    {dt windowStart windowEnd : DateTime} {d e : Doc} (h : SameContact d e)
    (hoperator : e["_operator"]? = some (.str operator)) (hcall : e["CALL"]? = some call)
    (hband : e["BAND"]? = some band) (hmode : e["MODE"]? = some mode)
    (hdate : e["qso_date_utc"]? = some (.datetime dt.toStored)) (hmillis : dt.utc % 1000 = 0)
    (hstart : dt.add (-twoMinutes) = .ok windowStart) (hend : dt.add twoMinutes = .ok windowEnd) :
    duplicateQuery operator call band mode windowStart windowEnd d = true := by
  have hnear := h.near
  rw [hdate] at hnear
  unfold withinTwoMinutes at hnear
  split at hnear
  · rename_i _ _ dt₁ dt₂ hd heq
    cases heq
    rw [decide_eq_true_eq, DateTime.utc_toStored hmillis] at hnear
    have hrange : atLeast windowStart (.datetime dt₁) = true ∧
        atMost windowEnd (.datetime dt₁) = true := by
      rw [atLeast, atMost, utc_toStored_add hmillis (by decide) hstart,
        utc_toStored_add hmillis (by decide) hend, decide_eq_true_eq, decide_eq_true_eq]
      omega
    rw [duplicateQuery, fieldIs_of_eq (h.operator.trans hoperator),
      fieldIs_of_eq (h.call.trans hcall), fieldIs_of_eq (h.band.trans hband),
      fieldIs_of_eq (h.mode.trans hmode), h.active, Doc.fieldMatches, Doc.fieldMatches, hd]
    simpa using hrange
  · cases hnear

/-! ## Writes -/

section

variable [UnicodeData]

/-- The new document describes no contact that is there already. -/
theorem not_sameContact_newDoc {now : DateTime} {oid : ObjectId} {body qsoDict : Doc}
    {operator : String} {qso : QSO} {c : Collection} (hoperator : operator ≠ "")
    (hbuilt : Built body operator qsoDict)
    (htext : ∀ k ∈ createDeclared, ∀ v, body[k]? = some v → v.IsOptionalText)
    (hcheck : NoDuplicate operator qsoDict c) (h : qsoFromInputDict now oid qsoDict = .ok qso) :
    ∀ d ∈ c.docs, ¬ SameContact d (Doc.toStored (qsoToMongoDoc oid qso)) := by
  intro d hd hsame
  obtain ⟨call, band, mode, dt, windowStart, windowEnd, hcall, hband, hmode, hdate, hstart, hend,
    hnone⟩ := hcheck
  have hmillis : dt.utc % 1000 = 0 := by
    obtain ⟨_, _, dt', -, -, hdt', hget⟩ := hbuilt.instant
    obtain rfl := Value.datetime.inj (Option.some.inj (hdate.symm.trans hget))
    exact (parseAdifDatetime_eq_ok hdt').2.2
  -- A text is read back as it is.
  have hstored : ∀ k ∈ createDeclared, ∀ v, qsoDict[k]? = some v → v.toStored = v := by
    have hderived : ∀ k ∈ createDeclared, k ∉ derivedNames := by decide
    intro k hk v hv
    obtain hbody | ⟨-, s, hs⟩ := hbuilt.rest k (hderived k hk)
    · exact (htext k hk v (hbody ▸ hv)).toStored_eq
    · exact Value.IsOptionalText.toStored_eq (.inr ⟨s, Option.some.inj (hv.symm.trans hs)⟩)
  have hget := getElem?_newDoc h
  refine Bool.false_ne_true ((hnone d hd).symm.trans (duplicateQuery_of_sameContact hsame ?_ ?_ ?_
    ?_ ?_ hmillis hstart hend))
  · rw [Doc.getElem?_toStored, hget]
    simp only [String.reduceEq, if_true, if_false, hbuilt.operator_eq, Value.orElse,
      if_pos (Value.truthy_str hoperator)]
    rfl
  · rw [Doc.getElem?_toStored, hget]
    simp only [String.reduceEq, if_true, if_false, Doc.get, hcall, Option.getD_some,
      Option.map_some, hstored "CALL" (by decide) call hcall]
  · rw [Doc.getElem?_toStored, hget]
    simp only [String.reduceEq, if_true, if_false, Doc.get, hband, Option.getD_some,
      Option.map_some, hstored "BAND" (by decide) band hband]
  · rw [Doc.getElem?_toStored, hget]
    simp only [String.reduceEq, if_true, if_false, Doc.get, hmode, Option.getD_some,
      Option.map_some, hstored "MODE" (by decide) mode hmode]
  · rw [Doc.getElem?_toStored, hget]
    simp only [String.reduceEq, if_true, if_false, Doc.get, hdate, Option.getD_some,
      Option.map_some]
    rfl

theorem Separated.insert {c c' : Collection} {env : Env} {body qsoDict : Doc} {operator : String}
    (h : Separated c) (hoperator : operator ≠ "") (hbuilt : Built body operator qsoDict)
    (htext : ∀ k ∈ createDeclared, ∀ v, body[k]? = some v → v.IsOptionalText)
    (hcheck : NoDuplicate operator qsoDict c) (hinsert : Inserts env qsoDict c c') :
    Separated c' := by
  obtain ⟨oid, qso, hqso, hc'⟩ := hinsert
  have hnew := not_sameContact_newDoc hoperator hbuilt htext hcheck hqso
  rw [Separated, (Collection.insert_eq_ok hc').1]
  intro d hd e he hne hsame
  rcases List.mem_append.1 hd with hd | hd <;> rcases List.mem_append.1 he with he | he
  · exact h d hd e he hne hsame
  · rw [List.mem_singleton.1 he] at hsame
    exact hnew d hd hsame
  · rw [List.mem_singleton.1 hd] at hsame
    exact hnew e he hsame.symm
  · exact hne ((List.mem_singleton.1 hd).trans (List.mem_singleton.1 he).symm)

/-- A document that is no longer active describes no contact. -/
theorem Separated.delete {c c' : Collection} {qso : QSO} (h : Separated c)
    (hupdate : c.update qso.id (withRowHash qso ((∅ : Doc).insert "_deleted" (.bool true))) =
      .ok c') : Separated c' := by
  obtain rfl | ⟨old, new, -, -, hnew, -, hdocs, -⟩ := Collection.update_eq_ok hupdate
  · exact h
  have hinactive : Doc.fieldIs new "_deleted" (.bool false) = false := by
    have hmem : "_deleted" ∈ Doc.toStored (withRowHash qso ((∅ : Doc).insert "_deleted"
        (.bool true))) := by
      rw [Doc.mem_toStored, withRowHash, Std.ExtTreeMap.mem_insert, Std.ExtTreeMap.mem_insert]
      exact .inr (.inl (by decide))
    have hget := getElem?_applySet_plain hnew (by decide) hmem
    rw [Doc.getElem?_toStored, withRowHash, Doc.getElem?_insert, if_neg (by decide),
      Doc.getElem?_insert, if_pos rfl] at hget
    rw [Doc.fieldIs, Doc.fieldMatches, hget]
    decide
  rw [Separated, hdocs]
  intro d hd e he hne hsame
  obtain rfl | ⟨hd, -⟩ := Collection.mem_replaceById hd
  · exact Bool.false_ne_true (hinactive.symm.trans hsame.active)
  obtain rfl | ⟨he, -⟩ := Collection.mem_replaceById he
  · exact Bool.false_ne_true (hinactive.symm.trans hsame.active')
  · exact h d hd e he hne hsame

/-! ## Runs -/

/-- The request is one that asks before it inserts, and changes nothing but deletion marks. -/
def Request.Checked : Request → Prop
  | .create _ force _ | .submit _ force _ => force = false
  | .ingest _ _ _ _ | .importAdif _ _ | .delete _ _ | .clear _ => True
  | .importDuplicates _ _ | .patch _ _ _ | .uiPatch _ _ _ => False

/-- The callsign of the account whose log the request writes. -/
def Request.callsign : Request → String
  | .create _ _ user | .submit _ _ user | .importDuplicates _ user | .patch _ _ user
  | .uiPatch _ _ user | .delete _ user => user.callsign
  | .ingest _ operator _ _ | .importAdif _ operator | .clear operator => operator

theorem Request.Submits.checked {request : Request} {fields : Doc} {operator : String}
    {profile : Option User} {checked : Bool}
    (h : request.Submits fields operator profile checked) (hrequest : request.Checked) :
    checked = true ∧ operator = request.callsign := by
  cases request with
  | create body force user =>
    obtain ⟨-, rfl, -, rfl⟩ := h
    exact ⟨congrArg not hrequest, rfl⟩
  | submit form force user =>
    obtain ⟨-, rfl, -, rfl⟩ := h
    exact ⟨congrArg not hrequest, rfl⟩
  | ingest record operator' profile' source => exact ⟨h.2.2.2, h.2.1⟩
  | importAdif raw operator' => exact ⟨h.2.2.2, h.2.1⟩
  | importDuplicates selected user => exact absurd hrequest id
  | _ => exact absurd h id

/-- The declared fields of a request that asks before it inserts are texts, or `None`. -/
theorem Request.Submits.isOptionalText {request : Request} {fields : Doc} {operator : String}
    {profile : Option User} {checked : Bool}
    (h : request.Submits fields operator profile checked) (hrequest : request.Checked) :
    ∀ k ∈ createDeclared, ∀ v, fields[k]? = some v → v.IsOptionalText := by
  intro k hk v hv
  cases request with
  | create body force user =>
    obtain ⟨rfl, -⟩ := h
    rw [QSOCreateRequest.merged, Doc.getElem?_update,
      Std.ExtTreeMap.getElem?_eq_none (body.extra_undeclared k hk), Option.none_or] at hv
    exact (body.declared_spec hv).2
  | submit form force user =>
    obtain hnone | ⟨-, s, hs⟩ := retouched_submittedFields h.1 k
    · rw [hnone, Std.ExtTreeMap.getElem?_empty] at hv
      cases hv
    · exact .inr ⟨s, Option.some.inj (hv.symm.trans hs)⟩
  | ingest record operator' profile' source =>
    obtain ⟨rfl, -⟩ := h
    exact .inr (exists_str_toDoc hv)
  | importAdif raw operator' =>
    obtain ⟨⟨record, -, rfl⟩, -⟩ := h
    exact .inr (exists_str_toDoc hv)
  | importDuplicates selected user => exact absurd hrequest id
  | _ => exact absurd h id

theorem Separated.write {c c' : Collection} {env : Env} {request : Request} (h : Separated c)
    (hrequest : request.Checked) (hcallsign : request.callsign ≠ "")
    (hwrite : Write env request c c') : Separated c' := by
  cases hwrite with
  | insert hsubmit hbuild hcheck hinsert =>
    obtain ⟨hchecked, hoperator⟩ := hsubmit.checked hrequest
    exact h.insert (hoperator ▸ hcallsign) (built_of_buildQsoDict hbuild)
      (hsubmit.isOptionalText hrequest) (hcheck hchecked) hinsert
  | update hold hqso hchange hupdate =>
    cases request with
    | delete qsoId user =>
      obtain ⟨-, rfl⟩ := hchange
      exact h.delete hupdate
    | patch qsoId body user => exact absurd hrequest id
    | uiPatch qsoId form user => exact absurd hrequest id
    | _ => exact absurd hchange id
  | clear _ =>
    intro d hd e he hne
    exact h d (List.mem_filter.1 hd).1 e (List.mem_filter.1 he).1 hne

/-- **Two-minute separation**, in every log written by requests of accounts with a callsign that
ask for duplicates before they insert. -/
theorem separated_of_checked {fullName : String} {rowHashUnique : Bool}
    {events : List (Env × Request)}
    (h : ∀ event ∈ events, event.2.Checked ∧ event.2.callsign ≠ "") :
    Separated (run step (.empty fullName rowHashUnique) events) := by
  refine (guarded_of_forall h _).induction (I := Separated) (fun c event hc hevent ↦ ?_)
    fun d hd ↦ absurd hd List.not_mem_nil
  obtain ⟨env, request⟩ := event
  exact step_induction (fun _ _ hc hwrite ↦ hc.write hevent.1 hevent.2 hwrite) hc

end

section

attribute [local instance] UnicodeData.ascii

/-- The contact, a minute later. -/
def Sample.nextMinute : QSOCreateRequest := { Sample.contact with timeOn := "1201" }

theorem separated_of_two_contacts : Separated (run step Sample.log
    [(Sample.env, .create Sample.contact false Sample.user),
      (Sample.later, .create Sample.nextMinute false Sample.user)]) := by
  refine separated_of_checked fun event hevent ↦ ?_
  simp only [List.mem_cons, List.not_mem_nil, or_false] at hevent
  obtain rfl | rfl := hevent
  · exact ⟨rfl, by decide⟩
  · exact ⟨rfl, by decide⟩

/-- An account without a callsign. -/
def Sample.nameless : User := { Sample.user with callsign := "" }

/-- Such an account gets both contacts into its log. -/
theorem not_separated_of_nameless : ¬ Separated (run step Sample.log
    [(Sample.env, .create Sample.contact false Sample.nameless),
      (Sample.later, .create Sample.nextMinute false Sample.nameless)]) := by
  decide +kernel

end

end Ollog

import Ollog.Qso.Log

/-!
# The row hash describes the content

Every writer stores, next to the fields it writes, the hash of the document that results.  It takes
that hash of something else than the document: of a fresh model whose date still has its zone, or
of a model hydrated from the old document with the updates laid over it.  `Hashed` is what the
documents of a log have in common that makes these hashes come out the same, as long as the clients
use ADIF names for their fields.

An object with a text `$ref` and an `$id` is hashed member by member when it comes in, and as the
text of a `DBRef` when it is read back (`not_rowHash_of_reference`).  Requests without one leave
truthful hashes (`rowHash_of_sparesReferences`).
-/

set_option autoImplicit false

namespace Ollog

open Effects

section

variable [UnicodeData]

/-- The invariant of the documents of a log. -/
structure Hashed (d : Doc) : Prop where
  /-- No declared field is left out, so hydration adds no default. -/
  declared : ∀ k ∈ aliasNames, k ∈ d
  /-- Nothing is hidden by the model. -/
  names : ∀ k ∈ d, k ∈ aliasNames ∨ isAdifName k = true
  rowHash : d["rowHash"]? = some (.str (canonicalDocumentHash d))

/-! ## New documents -/

/-- A dictionary to insert: ADIF fields, and the derived ones. -/
structure Insertable (qsoDict : Doc) : Prop where
  names : ∀ k ∈ qsoDict, k ∈ derivedNames ∨ isAdifName k = true
  hashStable : ∀ (k : String) (v : Value), qsoDict[k]? = some v → v.hashStable = true

theorem Built.insertable {body qsoDict : Doc} {operator : String}
    (h : Built body operator qsoDict)
    (hnames : ∀ k ∈ body, isAdifName k = true)
    (hstable : ∀ (k : String) (v : Value), body[k]? = some v → v.hashStable = true) :
    Insertable qsoDict := by
  have hfield : ∀ (k : String) (v : Value), qsoDict[k]? = some v →
      (k ∈ derivedNames ∨ isAdifName k = true) ∧ v.hashStable = true := by
    intro k v hv
    by_cases hk : k ∈ derivedNames
    · refine ⟨.inl hk, ?_⟩
      simp only [derivedNames, List.mem_cons, List.not_mem_nil, or_false] at hk
      obtain rfl | rfl | rfl := hk
      · obtain ⟨_, _, dt, -, -, hdt, hget⟩ := h.instant
        obtain rfl := Option.some.inj (hv.symm.trans hget)
        simpa [Value.hashStable] using (parseAdifDatetime_eq_ok hdt).2.2
      · rw [← Option.some.inj (h.operator_eq.symm.trans hv)]
        rfl
      · rw [← Option.some.inj (h.active.symm.trans hv)]
        rfl
    · obtain hsame | ⟨hname, s, hs⟩ := h.rest k hk
      · rw [hsame] at hv
        exact ⟨.inr (hnames k (Doc.mem_iff_ne_none.2 (hv ▸ Option.some_ne_none v))),
          hstable k v hv⟩
      · rw [hs] at hv
        cases hv
        exact ⟨.inr hname, rfl⟩
  refine ⟨fun k hk ↦ ?_, fun k v hv ↦ (hfield k v hv).2⟩
  obtain ⟨v, hv⟩ := Option.ne_none_iff_exists'.1 (Doc.mem_iff_ne_none.1 hk)
  exact (hfield k v hv).1

omit [UnicodeData] in
theorem Insertable.hashStable_get {qsoDict : Doc} (h : Insertable qsoDict) {k : String} {v : Value}
    (hv : v.hashStable = true) : (Doc.get qsoDict k v).hashStable = true := by
  rw [Doc.get]
  cases hk : qsoDict[k]? with
  | none => exact hv
  | some w => exact h.hashStable k w hk

/-- **A new document carries its own hash.** -/
theorem hashed_newDoc {now : DateTime} {oid : ObjectId} {qsoDict : Doc} {qso : QSO}
    (hdict : Insertable qsoDict) (h : qsoFromInputDict now oid qsoDict = .ok qso) :
    Hashed (Doc.toStored (qsoToMongoDoc oid qso)) := by
  have hget := getElem?_newDoc h
  have hextra : ∀ k ∉ aliasNames, ∀ v, (qsoToMongoDoc oid qso)[k]? = some v →
      k ∉ inputExcluded ∧ qsoDict[k]? = some v := by
    intro k hk v hv
    rw [getElem?_newDoc_extra h hk] at hv
    obtain ⟨hnot, hv⟩ := Option.ite_none_left_eq_some.1 hv
    exact ⟨fun hin ↦ hnot (.inl hin), hv⟩
  have hstable : ∀ k ∉ hashExcludedFields, ∀ v, (qsoToMongoDoc oid qso)[k]? = some v →
      v.hashStable = true := by
    intro k hk v hv
    by_cases halias : k ∈ aliasNames
    · rw [hget] at hv
      simp only [aliasNames, List.mem_cons, List.not_mem_nil, or_false] at halias
      rcases halias with rfl | rfl | rfl | rfl | rfl | rfl | rfl | rfl | rfl <;>
        simp only [String.reduceEq, if_true, if_false, Option.some.injEq] at hv
      case inl | inr.inr.inr.inr.inr.inr.inr.inl | inr.inr.inr.inr.inr.inr.inr.inr =>
        exact absurd (by decide) hk
      case inr.inl =>
        subst hv
        obtain heq | heq := Value.orElse_cases qsoDict["operator_callsign"]? qsoDict["_operator"]?
          <;> rw [heq] <;> exact hdict.hashStable_get rfl
      all_goals
        subst hv
        exact hdict.hashStable_get (by first | rfl | exact hdict.hashStable_get rfl)
    · exact hdict.hashStable k v (hextra k halias v hv).2
  refine ⟨fun k hk ↦ ?_, fun k hk ↦ ?_, ?_⟩
  · exact Doc.mem_toStored.2 (mem_newDoc h hk)
  · rw [or_iff_not_imp_left]
    intro halias
    rw [Doc.mem_toStored, Doc.mem_iff_ne_none, Option.ne_none_iff_exists'] at hk
    obtain ⟨v, hv⟩ := hk
    obtain ⟨hnot, hv⟩ := hextra k halias v hv
    have hderived : ∀ k ∈ derivedNames, k ∈ inputExcluded ∨ k ∈ aliasNames := by decide
    refine (hdict.names k ?_).resolve_left fun hk ↦ (hderived k hk).elim hnot halias
    rw [Doc.mem_iff_ne_none, hv]
    exact Option.some_ne_none v
  · rw [Doc.getElem?_toStored, hget, canonicalDocumentHash_toStored hstable]
    rfl

/-! ## Updates -/

/-- Updates of plain fields that keep their hash when they are stored. -/
structure Settable (updates : Doc) : Prop where
  names : ∀ k ∈ updates, isAdifName k = true ∨ k = "qso_date_utc" ∨ k = "_deleted"
  hashStable : ∀ (k : String) (v : Value), updates[k]? = some v → v.hashStable = true

theorem Settable.plainKey {updates : Doc} (h : Settable updates) (qso : QSO) :
    ∀ k ∈ Doc.toStored (withRowHash qso updates), PlainKey k := by
  intro k hk
  rw [Doc.mem_toStored, withRowHash, Std.ExtTreeMap.mem_insert, Std.compare_eq_iff_eq] at hk
  obtain rfl | hk := hk
  · decide
  · obtain hname | rfl | rfl := h.names k hk
    · exact plainKey_of_isAdifName hname
    · decide
    · decide

/-- **The hash taken of the hydrated document and the updates is the hash of the document that the
update leaves.** -/
theorem hashed_update {now : DateTime} {old new updates : Doc} {qso : QSO} (hold : Hashed old)
    (hqso : qsoFromMongoDoc now old = .ok qso) (hset : Settable updates)
    (h : applySet (Doc.toStored (withRowHash qso updates)) old = .ok new) : Hashed new := by
  rw [applySet_of_plain (hset.plainKey qso), Except.ok.injEq] at h
  subst h
  have hget : ∀ k, (old ∪ Doc.toStored (withRowHash qso updates))[k]? =
      if k = "rowHash" then some (.str (rowHashForUpdatedQso qso updates))
      else (updates[k]?.map Value.toStored).or old[k]? := by
    intro k
    rw [Doc.getElem?_update, Doc.getElem?_toStored, withRowHash, Doc.getElem?_insert]
    split
    · rfl
    · rfl
  refine ⟨fun k hk ↦ ?_, fun k hk ↦ ?_, ?_⟩
  · rw [Doc.mem_iff_ne_none, Doc.getElem?_update]
    have hmem := Doc.mem_iff_ne_none.1 (hold.declared k hk)
    cases (Doc.toStored (withRowHash qso updates))[k]? with
    | none => rwa [Option.none_or]
    | some v => exact Option.some_ne_none v
  · rw [Doc.mem_iff_ne_none, hget] at hk
    split at hk
    · rename_i heq
      exact .inl (heq ▸ by decide)
    cases hv : updates[k]? with
    | none =>
      rw [hv, Option.map_none, Option.none_or, ← Doc.mem_iff_ne_none] at hk
      exact hold.names k hk
    | some v =>
      have hmem : k ∈ updates := Doc.mem_iff_ne_none.2 (hv ▸ Option.some_ne_none v)
      obtain hname | rfl | rfl := hset.names k hmem
      · exact .inr hname
      · exact .inl (by decide)
      · exact .inl (by decide)
  · rw [hget, if_pos rfl, rowHashForUpdatedQso]
    refine congrArg (fun hash ↦ some (Value.str hash)) (canonicalDocumentHash_congr fun k hk ↦ ?_)
    have hne : k ≠ "rowHash" := fun heq ↦ hk (heq ▸ by decide)
    rw [hget, if_neg hne, Doc.getElem?_update]
    cases hv : updates[k]? with
    | some v =>
      exact congrArg some (Value.canonicalize_toStored v (hset.hashStable k v hv)).symm
    | none =>
      rw [Option.map_none, Option.none_or, Option.none_or, getElem?_modelDump_of_hydrated hqso]
      split
      · rename_i halias
        rw [Doc.get, Std.ExtTreeMap.getElem?_eq_some_getElem (hold.declared k halias),
          Option.getD_some]
      rename_i halias
      split
      · rename_i hhidden
        have hnames : ∀ k ∈ hiddenNames, isAdifName k = false := by decide
        have hnot : k ∉ old := fun hmem ↦ (hold.names k hmem).elim halias fun hname ↦
          notMem_of_isAdifName hnames hname hhidden
        rw [Std.ExtTreeMap.getElem?_eq_none hnot]
      · rfl

/-! ## Runs -/

/-- The request uses ADIF names for the fields it brings along. -/
def Request.AdifNamed : Request → Prop
  | .create body _ _ => ∀ k ∈ body.extra.fields, isAdifName k = true
  | .ingest record _ _ _ => ∀ k ∈ record, isAdifName k = true
  | .importAdif raw _ =>
    ∀ record ∈ (parseAdi (decodeUtf8 raw)).1, ∀ k ∈ record, isAdifName k = true
  | .importDuplicates selected _ =>
    ∀ record : JsonDoc, .ok record ∈ selected → ∀ k ∈ record.fields, isAdifName k = true
  | .patch _ body _ => ∀ k ∈ body.fields, k ∉ protectedFields → isAdifName k = true
  | _ => True

/-- No object that the request brings along, and that is hashed, is read back as a `DBRef`. -/
def Request.SparesReferences : Request → Prop
  | .create body _ _ =>
    ∀ (k : String) (v : Value), body.extra.fields[k]? = some v → v.hashStable = true
  | .importDuplicates selected _ => ∀ record : JsonDoc, .ok record ∈ selected →
    ∀ (k : String) (v : Value), record.fields[k]? = some v → v.hashStable = true
  | .patch _ body _ => ∀ (k : String) (v : Value), body.fields[k]? = some v → k ∉ protectedFields →
    v.hashStable = true
  | _ => True

theorem Request.Submits.isAdifName {request : Request} {fields : Doc} {operator : String}
    {profile : Option User} {checked : Bool}
    (h : request.Submits fields operator profile checked) (hrequest : request.AdifNamed)
    {k : String} (hk : k ∈ fields) : isAdifName k = true := by
  cases request with
  | create body force user =>
    obtain ⟨rfl, -⟩ := h
    rw [QSOCreateRequest.merged, Std.ExtTreeMap.mem_union_iff] at hk
    obtain hk | hk := hk
    · rw [Doc.mem_iff_ne_none, Option.ne_none_iff_exists'] at hk
      obtain ⟨v, hv⟩ := hk
      exact (body.declared_spec hv).1
    · exact hrequest k hk
  | submit form force user =>
    obtain hnone | ⟨hk', -⟩ := retouched_submittedFields h.1 k
    · rw [Doc.mem_iff_ne_none, hnone, Std.ExtTreeMap.getElem?_empty] at hk
      exact absurd rfl hk
    · exact hk'
  | ingest record operator' profile' source =>
    obtain ⟨rfl, -⟩ := h
    exact hrequest k (mem_toDoc.1 hk)
  | importAdif raw operator' =>
    obtain ⟨⟨record, hrecord, rfl⟩, -⟩ := h
    exact hrequest record hrecord k (mem_toDoc.1 hk)
  | importDuplicates selected user =>
    obtain ⟨⟨record, hrecord, rfl⟩, -⟩ := h
    exact hrequest record hrecord k hk
  | _ => exact absurd h id

theorem Request.Submits.hashStable {request : Request} {fields : Doc} {operator : String}
    {profile : Option User} {checked : Bool}
    (h : request.Submits fields operator profile checked) (hrequest : request.SparesReferences)
    {k : String} {v : Value} (hv : fields[k]? = some v) : v.hashStable = true := by
  cases request with
  | create body force user =>
    obtain ⟨rfl, -⟩ := h
    rw [QSOCreateRequest.merged, Doc.getElem?_update] at hv
    cases hextra : body.extra.fields[k]? with
    | some w =>
      rw [hextra, Option.some_or, Option.some.injEq] at hv
      exact hrequest k v (hv ▸ hextra)
    | none =>
      rw [hextra, Option.none_or] at hv
      exact (body.declared_spec hv).2.hashStable
  | submit form force user =>
    obtain hnone | ⟨-, s, hs⟩ := retouched_submittedFields h.1 k
    · rw [hnone, Std.ExtTreeMap.getElem?_empty] at hv
      cases hv
    · exact Value.IsOptionalText.hashStable (.inr ⟨s, Option.some.inj (hv.symm.trans hs)⟩)
  | ingest record operator' profile' source =>
    obtain ⟨rfl, -⟩ := h
    exact Value.IsOptionalText.hashStable (.inr (exists_str_toDoc hv))
  | importAdif raw operator' =>
    obtain ⟨⟨record, -, rfl⟩, -⟩ := h
    exact Value.IsOptionalText.hashStable (.inr (exists_str_toDoc hv))
  | importDuplicates selected user =>
    obtain ⟨⟨record, hrecord, rfl⟩, -⟩ := h
    exact hrequest record hrecord k v hv
  | _ => exact absurd h id

theorem Request.Changes.settable {request : Request} {qso : QSO} {updates : Doc}
    (h : request.Changes qso updates) (hnamed : request.AdifNamed)
    (hspares : request.SparesReferences) : Settable updates := by
  have hdate : ∀ {date time : Value} {dt : DateTime}, parseAdifDatetime date time = .ok dt →
      (Value.datetime dt).hashStable = true := fun hdt ↦ by
    simpa [Value.hashStable] using (parseAdifDatetime_eq_ok hdt).2.2
  cases request with
  | patch qsoId body user =>
    obtain ⟨fields, -, htouched, hmem, hrecalc⟩ := patchUpdates_eq_ok h.2
    have hfields : Settable fields := by
      refine ⟨fun k hk ↦ .inl (hnamed k ((hmem k).1 hk).1 ((hmem k).1 hk).2), fun k v hv ↦ ?_⟩
      obtain heq | ⟨-, s, hs⟩ := htouched k
      · rw [heq, stripProtected, Doc.getElem?_keep] at hv
        obtain ⟨hk, hv⟩ := Option.ite_none_right_eq_some.1 hv
        exact hspares k v hv (of_decide_eq_true hk)
      · exact Value.IsOptionalText.hashStable (.inr ⟨s, Option.some.inj (hv.symm.trans hs)⟩)
    obtain ⟨-, rfl⟩ | ⟨_, _, dt, -, -, hdt, rfl⟩ := recalculateDate_cases hrecalc
    · exact hfields
    · refine ⟨fun k hk ↦ ?_, fun k v hv ↦ ?_⟩
      · rw [Std.ExtTreeMap.mem_insert, Std.compare_eq_iff_eq] at hk
        obtain rfl | hk := hk
        · exact .inr (.inl rfl)
        · exact hfields.names k hk
      · rw [Doc.getElem?_insert] at hv
        split at hv
        · cases hv
          exact hdate hdt
        · exact hfields.hashStable k v hv
  | uiPatch qsoId form user =>
    have hfield := fun {k v} ↦ formUpdates_eq_ok (k := k) (v := v) h.2
    refine ⟨fun k hk ↦ ?_, fun k v hv ↦ ?_⟩
    · obtain ⟨v, hv⟩ := Option.ne_none_iff_exists'.1 (Doc.mem_iff_ne_none.1 hk)
      exact (hfield hv).imp And.left fun h ↦ .inl h.1
    · obtain ⟨-, s, rfl⟩ | ⟨-, _, _, dt, hdt, rfl⟩ := hfield hv
      · rfl
      · exact hdate hdt
  | delete qsoId user =>
    obtain ⟨-, rfl⟩ := h
    refine ⟨fun k hk ↦ ?_, fun k v hv ↦ ?_⟩
    · rw [Std.ExtTreeMap.mem_insert, Std.compare_eq_iff_eq] at hk
      obtain rfl | hk := hk
      · exact .inr (.inr rfl)
      · simp at hk
    · rw [Doc.getElem?_insert] at hv
      split at hv
      · cases hv
        rfl
      · simp at hv
  | _ => exact absurd h id

/-- **`rowHash` always describes the stored content**, in every log written by requests that use
ADIF names for the fields they bring along, and bring along no object that is read back as a
`DBRef`. -/
theorem rowHash_of_sparesReferences {fullName : String} {rowHashUnique : Bool}
    {events : List (Env × Request)}
    (h : ∀ event ∈ events, event.2.AdifNamed ∧ event.2.SparesReferences) :
    ∀ d ∈ (run step (.empty fullName rowHashUnique) events).docs,
      d["rowHash"]? = some (.str (canonicalDocumentHash d)) := by
  have hguard : Guarded step (fun _ event ↦ event.2.AdifNamed ∧ event.2.SparesReferences)
    (.empty fullName rowHashUnique) events := guarded_of_forall h _
  refine fun d hd ↦ Hashed.rowHash (forall_docs_of_guarded (P := Hashed) hguard
    (fun hrequest _ _ _ _ _ _ _ hsubmit hbuild hqso ↦ ?_)
    (fun hrequest _ _ _ _ _ hold hqso hchange hnew ↦ ?_) (fun d hd ↦ ?_) d hd)
  · exact hashed_newDoc ((built_of_buildQsoDict hbuild).insertable
      (fun k ↦ hsubmit.isAdifName hrequest.1) fun k v ↦ hsubmit.hashStable hrequest.2) hqso
  · exact hashed_update hold hqso (hchange.settable hrequest.1 hrequest.2) hnew
  · exact absurd hd List.not_mem_nil

end

section

attribute [local instance] UnicodeData.ascii

theorem rowHash_of_patched_notes :
    let docs := (run step Sample.log
      [(Sample.env, .create Sample.contact false Sample.user),
        (Sample.env, .patch Sample.firstId (Sample.oneText "NOTES" "5 W") Sample.user)]).docs
    docs.length = 1 ∧ ∀ d ∈ docs, d["rowHash"]? = some (.str (canonicalDocumentHash d)) := by
  refine ⟨by decide +kernel, rowHash_of_sparesReferences fun event hevent ↦ ?_⟩
  simp only [List.mem_cons, List.not_mem_nil, or_false] at hevent
  obtain rfl | rfl := hevent
  · refine ⟨fun k hk ↦ ?_, fun k v hv ↦ ?_⟩
    · simp [Sample.contact, Sample.noFields] at hk
    · simp [Sample.contact, Sample.noFields] at hv
  · refine ⟨fun k hk _ ↦ ?_, fun k v hv _ ↦ ?_⟩
    · rw [Sample.eq_of_mem_oneText hk]
      decide
    · rw [(Sample.eq_of_getElem?_oneText hv).2]
      rfl

/-- A contact whose notes are in the shape of a reference. -/
def Sample.referring : QSOCreateRequest where
  call := "K1ABC"
  qsoDate := "20240101"
  timeOn := "1200"
  band := "20m"
  mode := "ssb"
  extra := Sample.oneField "NOTES" (.dict [("$ref", .str "x"), ("$id", .int 1)]) rfl
  extra_undeclared k hk h := by
    rw [Sample.eq_of_mem_oneField h] at hk
    exact absurd hk (by decide)

/-- The hash of such a contact is not the hash of what is read back. -/
theorem not_rowHash_of_reference :
    (∀ k ∈ Sample.referring.extra.fields, isAdifName k = true) ∧
      ¬ ∀ d ∈ (run step Sample.log [(Sample.env, .create Sample.referring false Sample.user)]).docs,
        d["rowHash"]? = some (.str (canonicalDocumentHash d)) := by
  refine ⟨fun k hk ↦ ?_, ?_⟩
  · rw [@Sample.eq_of_mem_oneField _ _ _ rfl hk]
    decide
  · decide +kernel

end

end Ollog

import Ollog.Qso.Listing
import Ollog.Qso.Tombstones

/-!
# What a client is answered

The handlers of `/api/qsos` return dictionaries, and FastAPI validates what they return against
`QSOResponse` before it sends anything.  So a document that hydrates is not enough for a listing: a
value the response model does not take makes the request fail all the same, and one such document
takes the whole page with it.

A POST declares the fields of the response with their types.  A REST patch takes any value under
these names, except for `BAND` and `MODE`, whose values it turns to upper case first.  `Presentable`
is what a document needs to be shown, and `answers_of_sparesReaders` says that it keeps it, and with
it every request that reads the log its answer, when no patch writes something else there.
-/

set_option autoImplicit false

namespace Ollog

open Effects

/-! ## Response models -/

/-- `QSOResponse`. -/
structure QSOResponse where
  id : String
  call : String
  band : Option String
  mode : Option String
  qsoDateUtc : Option String
  operatorCallsign : Option String
  isDeleted : Option Bool
  freq : Option String
  rstSent : Option String
  rstRcvd : Option String

/-- The validation of a field declared `str`. -/
def validateStr (d : Doc) (k : String) : Except PyErr String :=
  match d[k]? with
  | some (.str s) => .ok s
  | _ => .error (.responseValidationError k)

/-- The validation of a field declared `Optional[str] = None`. -/
def validateOptionalStr (d : Doc) (k : String) : Except PyErr (Option String) :=
  match d[k]? with
  | none | some .null => .ok none
  | some (.str s) => .ok (some s)
  | some _ => .error (.responseValidationError k)

/-- The texts that pydantic takes for a truth value, in any case. -/
def boolTexts : List (String × Bool) :=
  [("0", false), ("off", false), ("f", false), ("false", false), ("n", false), ("no", false),
    ("1", true), ("on", true), ("t", true), ("true", true), ("y", true), ("yes", true)]

/-- The validation of a field declared `Optional[bool] = None`. -/
def validateOptionalBool (d : Doc) (k : String) : Except PyErr (Option Bool) :=
  match d[k]? with
  | none | some .null => .ok none
  | some (.bool b) => .ok (some b)
  | some (.int 0) => .ok (some false)
  | some (.int 1) => .ok (some true)
  | some (.float t) =>
    if t = "0.0" ∨ t = "-0.0" then .ok (some false)
    else if t = "1.0" then .ok (some true)
    else .error (.responseValidationError k)
  | some (.str s) =>
    match boolTexts.lookup s.toLower with
    | some b => .ok (some b)
    | none => .error (.responseValidationError k)
  | some _ => .error (.responseValidationError k)

/-- The name under which a field with an alias is looked up. -/
def aliasOr (d : Doc) (k name : String) : String := if k ∈ d then k else name

/-- The validation of a response against `QSOResponse`. -/
def QSOResponse.validate (d : Doc) : Except PyErr QSOResponse := do
  return {
    id := ← validateStr d "id"
    call := ← validateStr d "CALL"
    band := ← validateOptionalStr d "BAND"
    mode := ← validateOptionalStr d "MODE"
    qsoDateUtc := ← validateOptionalStr d "qso_date_utc"
    operatorCallsign := ← validateOptionalStr d (aliasOr d "_operator" "operator_callsign")
    isDeleted := ← validateOptionalBool d (aliasOr d "_deleted" "is_deleted")
    freq := ← validateOptionalStr d "FREQ"
    rstSent := ← validateOptionalStr d "RST_SENT"
    rstRcvd := ← validateOptionalStr d "RST_RCVD" }

/-- `QSOListResponse`. -/
structure QSOListResponse where
  items : List QSOResponse
  total : Nat
  page : Nat
  pageSize : Nat

/-- The validation of a response against `QSOListResponse`. -/
def QSOListResponse.validate (page : QSOPage) : Except PyErr QSOListResponse := do
  return {
    items := ← page.items.mapM QSOResponse.validate
    total := page.total
    page := page.page
    pageSize := page.pageSize }

/-! ## Routes -/

section

variable [UnicodeData] {m : Type → Type} [Monad m] [MonadExceptOf PyErr m] [MonadLiftT Db m]

/-- `POST /api/qsos/`. -/
def createQsoRoute (env : Env) (body : QSOCreateRequest) (force : Bool) (user : User) :
    m QSOResponse := do
  ofExcept (QSOResponse.validate (← createQso env body force user))

/-- `GET /api/qsos/`. -/
def listQsosRoute [QueryEngine] (env : Env) (params : ListParams) (user : User) :
    m QSOListResponse := do
  ofExcept (QSOListResponse.validate (← listQsos env params user))

/-- `GET /api/qsos/{qso_id}`. -/
def getQsoRoute (env : Env) (qsoId : String) (user : User) : m QSOResponse := do
  ofExcept (QSOResponse.validate (← getQso env qsoId user))

/-- `PATCH /api/qsos/{qso_id}`. -/
def patchQsoRoute (env : Env) (qsoId : String) (body : JsonDoc) (user : User) :
    m QSOResponse := do
  ofExcept (QSOResponse.validate (← patchQso env qsoId body user))

end

/-! ## Presentable documents -/

/-- The fields of a response that a POST declares and that nothing else looks at. -/
def reportNames : List String := ["FREQ", "RST_SENT", "RST_RCVD"]

/-- The fields of a response that are texts or `None`, and that are stored under their own names. -/
def textNames : List String := upperNames ++ reportNames

/-- Whatever stands under the names of a response can be shown. -/
structure Shows (d : Doc) : Prop where
  call : ∀ v, d["CALL"]? = some v → ∃ s, v = .str s
  texts : ∀ k ∈ textNames, ∀ v, d[k]? = some v → v.IsOptionalText
  instant : ∀ v, d["qso_date_utc"]? = some v → v.IsOptionalText ∨ ∃ dt, v = .datetime dt

/-- A document that is shown. -/
structure Presentable (d : Doc) : Prop extends Shows d where
  hydratable : Hydratable d
  declared : ∀ k ∈ aliasNames, k ∈ d
  operator : ∀ xs, d["_operator"]? ≠ some (.list xs)
  deleted : ∃ b, d["_deleted"]? = some (.bool b)

theorem validateOptionalStr_eq_ok {d : Doc} {k : String}
    (h : ∀ v, d[k]? = some v → v.IsOptionalText) : ∃ s, validateOptionalStr d k = .ok s := by
  rw [validateOptionalStr]
  cases hv : d[k]? with
  | none => exact ⟨_, rfl⟩
  | some v => obtain rfl | ⟨s, rfl⟩ := h v hv <;> exact ⟨_, rfl⟩

section

variable [UnicodeData]

/-- The dictionary of a hydrated document, under the names of a response. -/
theorem getElem?_qsoToDict {now : DateTime} {d : Doc} {qso : QSO}
    (h : qsoFromMongoDoc now d = .ok qso) (hdeclared : ∀ k ∈ aliasNames, k ∈ d) {k : String}
    (hk : k ∉ ["id", "_id", "_created_at", "_fields_set", "revision_id"]) :
    (qsoToDict qso)[k]? = if k = "qso_date_utc" then d[k]?.map fun
      | .datetime dt => .str (dt.isoformat "T")
      | v => v
    else d[k]? := by
  simp only [List.mem_cons, List.not_mem_nil, or_false, not_or] at hk
  have hdump : ∀ j, j ∉ hiddenNames → qso.modelDump[j]? = d[j]? := by
    intro j hj
    rw [getElem?_modelDump_of_hydrated h]
    split
    · rename_i halias
      rw [Doc.get, Std.ExtTreeMap.getElem?_eq_some_getElem (hdeclared j halias), Option.getD_some]
    · rfl
  have hkept : (((qso.modelDump.insert "id" (.str qso.id.pyStr)).erase "_id").erase
      "_created_at")[k]? = d[k]? := by
    rw [Doc.getElem?_erase, if_neg hk.2.2.1, Doc.getElem?_erase, if_neg hk.2.1,
      Doc.getElem?_insert, if_neg hk.1, hdump k (by simp [hiddenNames, hk.2.2.2.1, hk.2.2.2.2])]
  have hdate : (((qso.modelDump.insert "id" (.str qso.id.pyStr)).erase "_id").erase
      "_created_at")["qso_date_utc"]? = d["qso_date_utc"]? := by
    rw [Doc.getElem?_erase, if_neg (by decide), Doc.getElem?_erase, if_neg (by decide),
      Doc.getElem?_insert, if_neg (by decide), hdump _ (by decide)]
  rw [qsoToDict, hdate]
  split
  · rename_i dt hdt
    rw [Doc.getElem?_insert]
    split
    · rename_i heq
      rw [heq, hdt, Option.map_some]
    · exact hkept
  · rename_i hno
    rw [hkept]
    split
    · rename_i heq
      rw [heq]
      cases hv : d["qso_date_utc"]? with
      | none => rfl
      | some v =>
        cases v with
        | datetime dt => exact absurd hv (hno dt)
        | _ => rfl
    · rfl

/-- **A presentable document of an operator has an answer.** -/
theorem validate_of_presentable {now : DateTime} {d : Doc} {qso : QSO} {operator : String}
    (hd : Presentable d) (h : qsoFromMongoDoc now d = .ok qso)
    (hoperator : d["_operator"]? = some (.str operator)) :
    ∃ response, QSOResponse.validate (qsoToDict qso) = .ok response := by
  have hget := fun {k} ↦ @getElem?_qsoToDict _ now d qso h hd.declared k
  obtain ⟨call, hcall⟩ := hd.call _
    (Std.ExtTreeMap.getElem?_eq_some_getElem (hd.declared "CALL" (by decide)))
  have hcall' : d["CALL"]? = some (.str call) := by
    rw [Std.ExtTreeMap.getElem?_eq_some_getElem (hd.declared "CALL" (by decide)), hcall]
  obtain ⟨b, hb⟩ := hd.deleted
  have htext : ∀ k ∈ textNames, ∃ s, validateOptionalStr (qsoToDict qso) k = .ok s := by
    have hnames : ∀ k ∈ textNames, k ≠ "qso_date_utc" ∧
        k ∉ ["id", "_id", "_created_at", "_fields_set", "revision_id"] := by decide
    intro k hk
    refine validateOptionalStr_eq_ok fun v hv ↦ hd.texts k hk v ?_
    rwa [hget (hnames k hk).2, if_neg (hnames k hk).1] at hv
  have hdate : ∃ s, validateOptionalStr (qsoToDict qso) "qso_date_utc" = .ok s := by
    refine validateOptionalStr_eq_ok fun v hv ↦ ?_
    rw [hget (by decide), if_pos rfl] at hv
    obtain ⟨w, hw, rfl⟩ := Option.map_eq_some_iff.1 hv
    obtain (rfl | ⟨s, rfl⟩) | ⟨dt, rfl⟩ := hd.instant w hw
    · exact .inl rfl
    · exact .inr ⟨s, rfl⟩
    · exact .inr ⟨_, rfl⟩
  have hdictOperator : (qsoToDict qso)["_operator"]? = some (.str operator) := by
    rw [hget (by decide), if_neg (by decide), hoperator]
  have hdictDeleted : (qsoToDict qso)["_deleted"]? = some (.bool b) := by
    rw [hget (by decide), if_neg (by decide), hb]
  have hmem : ∀ {k : String} {v : Value}, (qsoToDict qso)[k]? = some v → k ∈ qsoToDict qso :=
    fun hv ↦ Doc.mem_iff_ne_none.2 (hv ▸ Option.some_ne_none _)
  obtain ⟨band, hband⟩ := htext "BAND" (by decide)
  obtain ⟨mode, hmode⟩ := htext "MODE" (by decide)
  obtain ⟨freq, hfreq⟩ := htext "FREQ" (by decide)
  obtain ⟨sent, hsent⟩ := htext "RST_SENT" (by decide)
  obtain ⟨rcvd, hrcvd⟩ := htext "RST_RCVD" (by decide)
  obtain ⟨date, hdate⟩ := hdate
  refine ⟨⟨qso.id.pyStr, call, band, mode, date, some operator, some b, freq, sent, rcvd⟩, ?_⟩
  rw [QSOResponse.validate, aliasOr, if_pos (hmem hdictOperator), aliasOr,
    if_pos (hmem hdictDeleted), validateStr, getElem?_qsoToDict_id, validateStr, hget (by decide),
    if_neg (by decide), hcall', hband, hmode, hfreq, hsent, hrcvd, hdate, validateOptionalStr,
    hdictOperator, validateOptionalBool, hdictDeleted]
  rfl

/-! ## New documents -/

/-- The QSO of a dictionary can be shown. -/
structure Showable (qsoDict : Doc) : Prop where
  call : ∃ s, qsoDict["CALL"]? = some (.str s)
  texts : ∀ k ∈ textNames, ∀ v, qsoDict[k]? = some v → v.IsOptionalText
  operator : ∀ xs,
    (Value.orElse qsoDict["operator_callsign"]? qsoDict["_operator"]?).getD .null ≠ .list xs

theorem Built.showable {fields : Doc} {operator : String} {qsoDict : Doc}
    (h : Built fields operator qsoDict) (hmem : "CALL" ∈ qsoDict)
    (hcall : ∀ v, fields["CALL"]? = some v → ∃ s, v = .str s)
    (htexts : ∀ k ∈ reportNames, ∀ v, fields[k]? = some v → v.IsOptionalText)
    (hoperator : operator = "" → ∀ xs, fields["_operator"]? ≠ some (.list xs)) :
    Showable qsoDict where
  call := by
    obtain heq | ⟨-, htext⟩ := h.rest "CALL" (by decide)
    · obtain ⟨v, hv⟩ := Option.ne_none_iff_exists'.1 (Doc.mem_iff_ne_none.1 hmem)
      obtain ⟨s, rfl⟩ := hcall v (heq ▸ hv)
      exact ⟨s, hv⟩
    · exact htext
  texts k hk v hv := by
    rcases List.mem_append.1 hk with hk | hk
    · exact h.upper k hk v hv
    · have hderived : ∀ k ∈ reportNames, k ∉ derivedNames := by decide
      obtain heq | ⟨-, s, hs⟩ := h.rest k (hderived k hk)
      · exact htexts k hk v (heq ▸ hv)
      · exact .inr ⟨s, Option.some.inj (hv.symm.trans hs)⟩
  operator xs := by
    rw [h.operator_eq, Value.orElse]
    by_cases hempty : operator = ""
    · obtain heq | ⟨hname, -⟩ := h.rest "_operator" (by decide)
      · rw [if_neg (by rw [hempty]; decide), heq]
        intro hlist
        cases hv : fields["_operator"]? with
        | none =>
          rw [hv] at hlist
          cases hlist
        | some v =>
          rw [hv, Option.getD_some] at hlist
          exact hoperator hempty xs (hlist ▸ hv)
      · exact absurd hname (by decide)
    · rw [if_pos (by simpa [Value.truthy] using hempty), Option.getD_some]
      intro hlist
      cases hlist

theorem presentable_newDoc {now : DateTime} {oid : ObjectId} {fields : Doc} {operator : String}
    {qsoDict : Doc} {qso : QSO} (hbuilt : Built fields operator qsoDict) (h : Showable qsoDict)
    (hqso : qsoFromInputDict now oid qsoDict = .ok qso) :
    Presentable (Doc.toStored (qsoToMongoDoc oid qso)) where
  hydratable := hydratable_newDoc hqso
  declared k hk := Doc.mem_toStored.2 (mem_newDoc hqso hk)
  call v hv := by
    obtain ⟨s, hs⟩ := h.call
    rw [Doc.getElem?_toStored, getElem?_newDoc hqso] at hv
    simp only [String.reduceEq, if_true, if_false, Option.map_some, Option.some.injEq, Doc.get, hs,
      Option.getD_some] at hv
    exact ⟨s, hv.symm⟩
  texts k hk v hv := by
    have hnew : (qsoToMongoDoc oid qso)[k]? = some (Doc.get qsoDict k .null) ∨
        (qsoToMongoDoc oid qso)[k]? = qsoDict[k]? := by
      rw [getElem?_newDoc hqso]
      simp only [textNames, upperNames, reportNames, List.cons_append, List.nil_append,
        List.mem_cons, List.not_mem_nil, or_false] at hk
      rcases hk with rfl | rfl | rfl | rfl | rfl <;>
        simp only [String.reduceEq, if_true, if_false] <;> first | exact .inl trivial | skip
      all_goals exact .inr (if_neg (by decide))
    have hget : ∀ w, (qsoToMongoDoc oid qso)[k]? = some w → w.IsOptionalText := by
      intro w hw
      obtain hnew | hnew := hnew
      · rw [hnew, Doc.get, Option.some.injEq] at hw
        cases hv : qsoDict[k]? with
        | none => exact .inl (by rw [← hw, hv, Option.getD_none])
        | some u => exact hw ▸ hv ▸ h.texts k hk u hv
      · exact h.texts k hk w (hnew ▸ hw)
    rw [Doc.getElem?_toStored] at hv
    obtain ⟨w, hw, rfl⟩ := Option.map_eq_some_iff.1 hv
    rw [(hget w hw).toStored_eq]
    exact hget w hw
  instant v hv := by
    obtain ⟨_, _, dt, -, -, -, hdt⟩ := hbuilt.instant
    rw [Doc.getElem?_toStored, getElem?_newDoc hqso] at hv
    simp only [String.reduceEq, if_true, if_false, Option.map_some, Option.some.injEq, Doc.get, hdt,
      Option.getD_some] at hv
    exact .inr ⟨_, hv.symm⟩
  operator xs hxs := by
    rw [Doc.getElem?_toStored, getElem?_newDoc hqso] at hxs
    simp only [String.reduceEq, if_true, if_false, Option.map_some, Option.some.injEq] at hxs
    obtain ⟨ys, hys⟩ := Value.exists_list_of_toStored hxs
    exact h.operator ys hys
  deleted := by
    refine ⟨false, ?_⟩
    rw [Doc.getElem?_toStored, getElem?_newDoc hqso]
    simp only [String.reduceEq, if_true, if_false, Doc.get, hbuilt.active, Option.getD_some]
    rfl

/-! ## Updates -/

/-- What an update may do to a document that is shown. -/
structure SparesReaders (updates : Doc) : Prop extends Shows updates where
  keywords : ∀ k ∈ updates, rootOf k ∉ clashingNames
  whole : ∀ k ∈ updates, rootOf k ∈ reportNames → k = rootOf k
  operator : "_operator" ∉ updates
  deleted : ∀ v, updates["_deleted"]? = some v → ∃ b, v = .bool b

theorem Presentable.update {old new updates : Doc} {qso : QSO} {operator : String}
    (h : Presentable old) (hoperator : old["_operator"]? = some (.str operator))
    (hupdates : SparesReaders updates)
    (hnew : applySet (Doc.toStored (withRowHash qso updates)) old = .ok new) : Presentable new := by
  have hset : ∀ k, k ≠ "rowHash" →
      (Doc.toStored (withRowHash qso updates))[k]? = updates[k]?.map Value.toStored := fun k hk ↦ by
    rw [Doc.getElem?_toStored, withRowHash, Doc.getElem?_insert, if_neg hk]
  -- A declared field of `old` that is no container can only be replaced.
  have hscalar : ∀ k, k ≠ "rowHash" → PlainKey k → ∀ v, old[k]? = some v → v.isContainer = false →
      new[k]? = (updates[k]?.map Value.toStored).or (some v) := fun k hk hplain v hv hcontainer ↦ by
    rw [getElem?_applySet_scalar hnew hplain hv hcontainer, hset k hk, hv]
  have hpresent : ∀ k ∈ aliasNames, ∃ v, old[k]? = some v := fun k hk ↦
    Option.ne_none_iff_exists'.1 (Doc.mem_iff_ne_none.1 (h.declared k hk))
  -- An optional text is stored as it is.
  have htexts : ∀ k ∈ textNames, ∀ v, (updates[k]?.map Value.toStored).or old[k]? = some v →
      v.IsOptionalText := fun k hk v hv ↦ by
    obtain hmap | ⟨-, hv⟩ := Option.or_eq_some_iff.1 hv
    · obtain ⟨w, hw, rfl⟩ := Option.map_eq_some_iff.1 hmap
      rw [(hupdates.texts k hk w hw).toStored_eq]
      exact hupdates.texts k hk w hw
    · exact h.texts k hk v hv
  refine { call := fun v hv ↦ ?_, texts := fun k hk v hv ↦ ?_, instant := fun v hv ↦ ?_,
           hydratable := (hydratable_update_iff hnew h.hydratable).2 hupdates.keywords,
           declared := fun k hk ↦ ?_, operator := fun xs hxs ↦ ?_, deleted := ?_ }
  · obtain ⟨w, hw⟩ := hpresent "CALL" (by decide)
    obtain ⟨s, rfl⟩ := h.call w hw
    rw [hscalar "CALL" (by decide) (by decide) _ hw rfl] at hv
    obtain hmap | ⟨-, hv⟩ := Option.or_eq_some_iff.1 hv
    · obtain ⟨u, hu, rfl⟩ := Option.map_eq_some_iff.1 hmap
      obtain ⟨t, rfl⟩ := hupdates.call u hu
      exact ⟨t, rfl⟩
    · exact ⟨s, (Option.some.inj hv).symm⟩
  · have hnames : ∀ k ∈ textNames, PlainKey k ∧ k ≠ "rowHash" := by decide
    refine htexts k hk v ?_
    rw [← hv]
    rcases List.mem_append.1 hk with hupper | hreport
    · have hdeclared : ∀ k ∈ upperNames, k ∈ aliasNames := by decide
      obtain ⟨w, hw⟩ := hpresent k (hdeclared k hupper)
      have hcontainer : w.isContainer = false := by
        obtain rfl | ⟨s, rfl⟩ := h.texts k hk w hw <;> rfl
      rw [hscalar k (hnames k hk).2 (hnames k hk).1 w hw hcontainer, hw]
    · rw [getElem?_applySet_of_whole hnew (hnames k hk).1 fun other hother hroot ↦ ?_,
        hset k (hnames k hk).2]
      rw [Doc.mem_toStored, withRowHash, Std.ExtTreeMap.mem_insert, Std.compare_eq_iff_eq] at hother
      obtain rfl | hother := hother
      · exact hroot
      · rw [hupdates.whole other hother (hroot ▸ hreport), hroot]
  · obtain ⟨w, hw⟩ := hpresent "qso_date_utc" (by decide)
    have hcontainer : w.isContainer = false := by
      obtain (rfl | ⟨s, rfl⟩) | ⟨dt, rfl⟩ := h.instant w hw <;> rfl
    rw [hscalar "qso_date_utc" (by decide) (by decide) w hw hcontainer] at hv
    obtain hmap | ⟨-, hv⟩ := Option.or_eq_some_iff.1 hv
    · obtain ⟨u, hu, rfl⟩ := Option.map_eq_some_iff.1 hmap
      obtain htext | ⟨dt, rfl⟩ := hupdates.instant u hu
      · rw [htext.toStored_eq]
        exact .inl htext
      · exact .inr ⟨_, rfl⟩
    · exact Option.some.inj hv ▸ h.instant w hw
  · have hplain : ∀ k ∈ aliasNames, PlainKey k := by decide
    exact mem_applySet_of_mem hnew (hplain k hk) (h.declared k hk)
  · rw [hscalar "_operator" (by decide) (by decide) _ hoperator rfl,
      Std.ExtTreeMap.getElem?_eq_none hupdates.operator] at hxs
    cases hxs
  · obtain ⟨b, hb⟩ := h.deleted
    rw [hscalar "_deleted" (by decide) (by decide) _ hb rfl]
    cases hv : updates["_deleted"]? with
    | none => exact ⟨b, rfl⟩
    | some v =>
      obtain ⟨b', rfl⟩ := hupdates.deleted v hv
      exact ⟨b', rfl⟩

/-! ## Requests -/

/-- What a REST patch may write: no keyword of the constructor, and under the names of a response
what the response can show.  `BAND` and `MODE` need no condition. -/
structure SparesFields (body : Doc) : Prop where
  keywords : ∀ k ∈ body, k ∉ protectedFields → rootOf k ∉ clashingNames
  call : ∀ v, body["CALL"]? = some v → ∃ s, v = .str s
  texts : ∀ k ∈ "qso_date_utc" :: reportNames, ∀ v, body[k]? = some v → v.IsOptionalText
  whole : ∀ k ∈ body, rootOf k ∈ reportNames → k = rootOf k

/-- What a selected duplicate may hold.  Its token is not signed, so it is any JSON object. -/
structure SparesSelected (fields : Doc) : Prop where
  call : ∃ s, fields["CALL"]? = some (.str s)
  texts : ∀ k ∈ reportNames, ∀ v, fields[k]? = some v → v.IsOptionalText

/-- A body does not choose a list for an operator that has no callsign. -/
def SparesOperator (user : User) (fields : Doc) : Prop :=
  user.callsign = "" → ∀ xs, fields["_operator"]? ≠ some (.list xs)

/-- Everything the request writes under the names of a response can be shown. -/
def Request.SparesReaders : Request → Prop
  | .create body _ user => SparesOperator user body.extra.fields
  | .importDuplicates selected user => ∀ record : JsonDoc, .ok record ∈ selected →
    SparesSelected record.fields ∧ SparesOperator user record.fields
  | .patch _ body _ => SparesFields body.fields
  | _ => True

/-- A submitted form has a call. -/
theorem getElem?_submittedFields_call {form : Form} {user : User} {fields : Doc}
    (h : submittedFields form user = .ok fields) : ∃ s, fields["CALL"]? = some (.str s) := by
  obtain ⟨call, -, h⟩ := bind_eq_ok.1 h
  obtain ⟨qsoDate, -, h⟩ := bind_eq_ok.1 h
  obtain ⟨timeOn, -, h⟩ := bind_eq_ok.1 h
  obtain ⟨band, -, h⟩ := bind_eq_ok.1 h
  obtain ⟨mode, -, h⟩ := bind_eq_ok.1 h
  obtain ⟨values, hvalues, h⟩ := bind_eq_ok.1 h
  cases h
  have hform : (formData form call qsoDate timeOn band mode)["CALL"]? = some (.str call) := by
    simp only [formData, Std.ExtTreeMap.ofList_cons, Std.ExtTreeMap.insertMany_cons,
      Std.ExtTreeMap.insertMany_nil, Doc.getElem?_insert, String.reduceEq, if_true, if_false]
  rw [Std.ExtTreeMap.getElem?_filter', Doc.getElem?_update, hform]
  obtain hnone | ⟨-, s, hs⟩ := retouched_customQsoValues hvalues "CALL"
  · rw [hnone, Std.ExtTreeMap.getElem?_empty, Option.none_or]
    exact ⟨call, rfl⟩
  · rw [hs, Option.some_or]
    exact ⟨s, rfl⟩

omit [UnicodeData] in
theorem QSOCreateRequest.getElem?_merged_call (body : QSOCreateRequest) :
    body.merged["CALL"]? = some (.str body.call) := by
  rw [merged, Doc.getElem?_update,
    Std.ExtTreeMap.getElem?_eq_none (body.extra_undeclared "CALL" (by decide)), Option.none_or]
  simp only [declared, Std.ExtTreeMap.ofList_cons, Std.ExtTreeMap.insertMany_cons,
    Std.ExtTreeMap.insertMany_nil, Doc.getElem?_insert, String.reduceEq, if_true, if_false]

/-- A dictionary has the call of its fields. -/
theorem Built.mem_call {fields : Doc} {operator : String} {qsoDict : Doc}
    (h : Built fields operator qsoDict) (hcall : ∃ s, fields["CALL"]? = some (.str s)) :
    "CALL" ∈ qsoDict := by
  rw [Doc.mem_iff_ne_none]
  obtain ⟨s, hs⟩ := hcall
  obtain heq | ⟨-, t, ht⟩ := h.rest "CALL" (by decide)
  · rw [heq, hs]
    exact Option.some_ne_none _
  · rw [ht]
    exact Option.some_ne_none _

omit [UnicodeData] in
theorem NoDuplicate.mem_call {operator : String} {qsoDict : Doc}
    (h : ∃ c, NoDuplicate operator qsoDict c) : "CALL" ∈ qsoDict := by
  obtain ⟨_, _, _, _, _, _, _, hcall, -⟩ := h
  rw [Doc.mem_iff_ne_none, hcall]
  exact Option.some_ne_none _

/-- **Every new QSO can be shown.** -/
theorem showable_of_submits {request : Request} {fields : Doc} {operator : String}
    {profile : Option User} {checked : Bool} {qsoDict : Doc} (h : request.SparesReaders)
    (hsubmit : request.Submits fields operator profile checked)
    (hbuilt : Built fields operator qsoDict)
    (hcheck : checked = true → ∃ c, NoDuplicate operator qsoDict c) : Showable qsoDict := by
  cases request with
  | create body force user =>
    obtain ⟨rfl, rfl, -, -⟩ := hsubmit
    have hcall := body.getElem?_merged_call
    refine hbuilt.showable (hbuilt.mem_call ⟨_, hcall⟩)
      (fun v hv ↦ ⟨_, (Option.some.inj (hcall.symm.trans hv)).symm⟩) (fun k hk v hv ↦ ?_)
      fun hempty xs hxs ↦ ?_
    · have hnames : ∀ k ∈ reportNames, k ∈ createDeclared := by decide
      rw [QSOCreateRequest.merged, Doc.getElem?_update,
        Std.ExtTreeMap.getElem?_eq_none (body.extra_undeclared k (hnames k hk)),
        Option.none_or] at hv
      exact (body.declared_spec hv).2
    · rw [QSOCreateRequest.merged, Doc.getElem?_update] at hxs
      obtain hextra | ⟨-, hdeclared⟩ := Option.or_eq_some_iff.1 hxs
      · exact h hempty xs hextra
      · exact absurd (body.declared_spec hdeclared).1 (by decide)
  | submit form force user =>
    obtain ⟨hfields, rfl, -, -⟩ := hsubmit
    have htext : ∀ k v, fields[k]? = some v → isAdifName k = true ∧ ∃ s, v = .str s := by
      intro k v hv
      obtain hnone | ⟨hk, s, hs⟩ := retouched_submittedFields hfields k
      · rw [hnone, Std.ExtTreeMap.getElem?_empty] at hv
        cases hv
      · exact ⟨hk, s, Option.some.inj (hv.symm.trans hs)⟩
    refine hbuilt.showable (hbuilt.mem_call (getElem?_submittedFields_call hfields))
      (fun v hv ↦ (htext _ v hv).2) (fun k _ v hv ↦ .inr (htext k v hv).2) fun _ xs hxs ↦ ?_
    exact absurd (htext _ _ hxs).1 (by decide)
  | ingest record operator' profile' source =>
    obtain ⟨rfl, rfl, -, rfl⟩ := hsubmit
    refine hbuilt.showable (NoDuplicate.mem_call (hcheck rfl)) (fun _ hv ↦ exists_str_toDoc hv)
      (fun _ _ _ hv ↦ .inr (exists_str_toDoc hv)) fun _ _ hxs ↦ ?_
    obtain ⟨s, hs⟩ := exists_str_toDoc hxs
    cases hs
  | importAdif raw operator' =>
    obtain ⟨⟨record, -, rfl⟩, rfl, -, rfl⟩ := hsubmit
    refine hbuilt.showable (NoDuplicate.mem_call (hcheck rfl)) (fun _ hv ↦ exists_str_toDoc hv)
      (fun _ _ _ hv ↦ .inr (exists_str_toDoc hv)) fun _ _ hxs ↦ ?_
    obtain ⟨s, hs⟩ := exists_str_toDoc hxs
    cases hs
  | importDuplicates selected user =>
    obtain ⟨⟨record, hrecord, rfl⟩, rfl, -, -⟩ := hsubmit
    obtain ⟨⟨⟨s, hs⟩, htexts⟩, hoperator⟩ := h record hrecord
    exact hbuilt.showable (hbuilt.mem_call ⟨s, hs⟩)
      (fun v hv ↦ ⟨s, (Option.some.inj (hs.symm.trans hv)).symm⟩) htexts hoperator
  | _ => exact absurd hsubmit id

theorem sparesReaders_of_patchUpdates {user : User} {qso : QSO} {body updates : Doc}
    (h : SparesFields body) (hupdates : patchUpdates user qso body = .ok updates) :
    SparesReaders updates := by
  obtain ⟨fields, hpatched, hretouched, hmem, hdate⟩ := patchUpdates_eq_ok hupdates
  have hfields : ∀ (k : String) (v : Value), fields[k]? = some v →
      body[k]? = some v ∨ ∃ s, v = .str s := by
    intro k v hv
    obtain heq | ⟨-, s, hs⟩ := hretouched k
    · rw [heq, stripProtected, Doc.getElem?_keep] at hv
      exact .inl (Option.ite_none_right_eq_some.1 hv).2
    · exact .inr ⟨s, Option.some.inj (hv.symm.trans hs)⟩
  have hshown : SparesReaders fields := {
    call := fun v hv ↦ (hfields _ v hv).elim (h.call v) id
    texts := fun k hk v hv ↦ by
      rcases List.mem_append.1 hk with hk | hk
      · exact isOptionalText_patchedFields hpatched hk hv
      · exact (hfields k v hv).elim (h.texts k (List.mem_cons_of_mem _ hk) v) .inr
    instant := fun v hv ↦ .inl ((hfields _ v hv).elim (h.texts _ (List.mem_cons_self ..) v) .inr)
    keywords := fun k hk ↦ h.keywords k ((hmem k).1 hk).1 ((hmem k).1 hk).2
    whole := fun k hk ↦ h.whole k ((hmem k).1 hk).1
    operator := fun hk ↦ ((hmem _).1 hk).2 (by decide)
    deleted := fun v hv ↦
      absurd (by decide) ((hmem _).1 (Doc.mem_iff_ne_none.2 (hv ▸ Option.some_ne_none v))).2 }
  obtain ⟨-, rfl⟩ | ⟨_, _, dt, -, -, -, rfl⟩ := recalculateDate_cases hdate
  · exact hshown
  -- The instant is the one field that is added, and it is a date.
  have hother : ∀ k, k ≠ "qso_date_utc" → ∀ v,
      (fields.insert "qso_date_utc" (.datetime dt))[k]? = some v → fields[k]? = some v := by
    intro k hk v hv
    rwa [Doc.getElem?_insert, if_neg hk] at hv
  have hadded : ∀ k ∈ fields.insert "qso_date_utc" (.datetime dt),
      k = "qso_date_utc" ∨ k ∈ fields := by
    intro k hk
    rw [Std.ExtTreeMap.mem_insert, Std.compare_eq_iff_eq] at hk
    exact hk.imp_left Eq.symm
  have hnames : ∀ k ∈ textNames, k ≠ "qso_date_utc" := by decide
  exact {
    call := fun v hv ↦ hshown.call v (hother "CALL" (by decide) v hv)
    texts := fun k hk v hv ↦ hshown.texts k hk v (hother k (hnames k hk) v hv)
    instant := fun v hv ↦ by
      rw [Doc.getElem?_insert, if_pos rfl] at hv
      exact .inr ⟨dt, (Option.some.inj hv).symm⟩
    keywords := fun k hk ↦ by
      obtain rfl | hk := hadded k hk
      · decide
      · exact hshown.keywords k hk
    whole := fun k hk hroot ↦ by
      obtain rfl | hk := hadded k hk
      · exact absurd hroot (by decide)
      · exact hshown.whole k hk hroot
    operator := fun hk ↦ (hadded _ hk).elim (by decide) hshown.operator
    deleted := fun v hv ↦ hshown.deleted v (hother "_deleted" (by decide) v hv) }

theorem sparesReaders_of_formUpdates {user : User} {qso : QSO} {form : Form} {updates : Doc}
    (h : formUpdates user qso form = .ok updates) : SparesReaders updates := by
  have hfield : ∀ k v, updates[k]? = some v → FormField k v := fun k v ↦ formUpdates_eq_ok h
  have htext : ∀ k, k ≠ "qso_date_utc" → ∀ v, updates[k]? = some v →
      isAdifName k = true ∧ ∃ s, v = .str s := fun k hk v hv ↦
    (hfield k v hv).resolve_right fun hdate ↦ hk hdate.1
  have hname : ∀ k ∈ updates, k = "qso_date_utc" ∨ isAdifName k = true := by
    intro k hk
    obtain ⟨v, hv⟩ := Option.ne_none_iff_exists'.1 (Doc.mem_iff_ne_none.1 hk)
    exact (hfield k v hv).symm.imp And.left And.left
  have hplain : ∀ k ∈ updates, rootOf k = k := fun k hk ↦ by
    obtain rfl | hk := hname k hk
    · decide
    · exact rootOf_of_plain (plainKey_of_isAdifName hk)
  have hnames : ∀ k ∈ textNames, k ≠ "qso_date_utc" := by decide
  exact {
    call := fun v hv ↦ (htext _ (by decide) v hv).2
    texts := fun k hk v hv ↦ .inr (htext k (hnames k hk) v hv).2
    instant := fun v hv ↦ by
      obtain ⟨-, htext⟩ | ⟨-, _, _, dt, -, rfl⟩ := hfield _ v hv
      · exact .inl (.inr htext)
      · exact .inr ⟨dt, rfl⟩
    keywords := fun k hk ↦ by
      rw [hplain k hk]
      obtain rfl | hk := hname k hk
      · decide
      · exact notMem_of_isAdifName (by decide) hk
    whole := fun k hk _ ↦ (hplain k hk).symm
    operator := fun hk ↦ absurd (hname _ hk) (by decide)
    deleted := fun v hv ↦ absurd (htext _ (by decide) v hv).1 (by decide) }

omit [UnicodeData] in
theorem sparesReaders_of_deleted :
    SparesReaders ((∅ : Doc).insert "_deleted" (.bool true)) := by
  have hget : ∀ k v, ((∅ : Doc).insert "_deleted" (.bool true))[k]? = some v →
      k = "_deleted" ∧ v = .bool true := fun k v hv ↦ Doc.eq_of_getElem?_insert_empty hv
  have hmem : ∀ k ∈ (∅ : Doc).insert "_deleted" (.bool true), k = "_deleted" := fun k hk ↦ by
    obtain ⟨v, hv⟩ := Option.ne_none_iff_exists'.1 (Doc.mem_iff_ne_none.1 hk)
    exact (hget k v hv).1
  have hnames : "_deleted" ∉ textNames := by decide
  exact {
    call := fun v hv ↦ absurd (hget _ v hv).1 (by decide)
    texts := fun k hk v hv ↦ absurd ((hget k v hv).1 ▸ hk) hnames
    instant := fun v hv ↦ absurd (hget _ v hv).1 (by decide)
    keywords := fun k hk ↦ by
      rw [hmem k hk]
      decide
    whole := fun k hk _ ↦ by
      rw [hmem k hk]
      decide
    operator := fun hk ↦ absurd (hmem _ hk) (by decide)
    deleted := fun v hv ↦ ⟨true, (hget _ v hv).2⟩ }

/-- **Every update leaves what can be shown.** -/
theorem sparesReaders_of_changes {request : Request} {qso : QSO} {updates : Doc}
    (h : request.SparesReaders) (hchange : request.Changes qso updates) :
    SparesReaders updates := by
  cases request with
  | patch qsoId body user => exact sparesReaders_of_patchUpdates h hchange.2
  | uiPatch qsoId form user => exact sparesReaders_of_formUpdates hchange.2
  | delete qsoId user =>
    obtain ⟨-, rfl⟩ := hchange
    exact sparesReaders_of_deleted
  | _ => exact absurd hchange id

/-! ## The log -/

omit [UnicodeData] in
theorem operator_of_hydrated {now : DateTime} {d : Doc} {qso : QSO} {operator : String}
    (h : qsoFromMongoDoc now d = .ok qso) (hoperator : qso.operatorCallsign = .str operator) :
    d["_operator"]? = some (.str operator) := by
  rw [(QSO.modelConstruct_eq_ok.1 h).2] at hoperator
  dsimp only [Doc.get] at hoperator
  cases hv : d["_operator"]? with
  | none =>
    rw [hv] at hoperator
    cases hoperator
  | some v =>
    rw [hv, Option.getD_some] at hoperator
    rw [hoperator]

theorem Request.Changes.exists_operator {request : Request} {now : DateTime} {old : Doc}
    {qso : QSO} {updates : Doc} (hqso : qsoFromMongoDoc now old = .ok qso)
    (hchange : request.Changes qso updates) :
    ∃ operator, old["_operator"]? = some (.str operator) := by
  cases request with
  | patch qsoId body user => exact ⟨_, operator_of_hydrated hqso hchange.1.own⟩
  | uiPatch qsoId form user => exact ⟨_, operator_of_hydrated hqso hchange.1.own⟩
  | delete qsoId user => exact ⟨_, operator_of_hydrated hqso hchange.1.own⟩
  | _ => exact absurd hchange id

/-- A log all of whose documents can be shown. -/
def Shown (c : Collection) : Prop := ∀ d ∈ c.docs, Presentable d

omit [UnicodeData] in
theorem Shown.readable {c : Collection} (h : Shown c) : Readable c :=
  fun d hd _ ↦ hydrates_iff.2 (h d hd).hydratable

theorem shown_run {fullName : String} {rowHashUnique : Bool} {events : List (Env × Request)}
    (h : ∀ event ∈ events, event.2.SparesReaders) :
    Shown (run step (.empty fullName rowHashUnique) events) := by
  have hguard : Guarded step (fun _ event ↦ event.2.SparesReaders)
    (.empty fullName rowHashUnique) events := guarded_of_forall h _
  refine forall_docs_of_guarded_checked (P := Presentable) hguard
    (fun hrequest _ _ _ _ _ _ _ hsubmit hbuild hcheck hqso ↦ ?_)
    (fun hrequest _ _ _ _ _ hold hqso hchange hnew ↦ ?_) fun d hd ↦ absurd hd List.not_mem_nil
  · have hbuilt := built_of_buildQsoDict hbuild
    exact presentable_newDoc hbuilt (showable_of_submits hrequest hsubmit hbuilt hcheck) hqso
  · obtain ⟨operator, hoperator⟩ := hchange.exists_operator hqso
    exact hold.update hoperator (sparesReaders_of_changes hrequest hchange) hnew

/-! ## Reading -/

variable {env : Env} {c : Collection} {user : User}

omit [UnicodeData] in
/-- What a query for the QSOs of an operator finds is one of its QSOs. -/
theorem operator_of_activeQuery {operator : String} {d : Doc} (h : activeQuery operator d = true)
    (hlist : ∀ xs, d["_operator"]? ≠ some (.list xs)) :
    d["_operator"]? = some (.str operator) := by
  have his := (Bool.and_eq_true_iff.1 h).1
  rw [Doc.fieldIs, Doc.fieldMatches] at his
  split at his
  · cases his
  · rename_i xs hxs
    exact absurd hxs (hlist xs)
  · rename_i v _ hv
    rw [show (Value.str operator == Value.null) = false from rfl, Bool.false_and, Bool.or_false,
      beq_iff_eq] at his
    rw [hv, his]

omit [UnicodeData] in
/-- Addressing a QSO of a readable log finds a stored one, or ends in a 404. -/
theorem wp_ownQso_of_readable (h : Readable c) (qsoId : String) :
    wp (ownQso env qsoId user : Db _)
      (fun qso c' ↦ c' = c ∧ ∃ d ∈ c.docs, qsoFromMongoDoc env.now d = .ok qso ∧
        Addresses qsoId user qso)
      (fun exc c' ↦ exc = notFound ∧ c' = c) c := by
  have hfound : wp (ownQso env qsoId user : Db _)
      (fun qso _ ↦ ∃ d ∈ c.docs, qsoFromMongoDoc env.now d = .ok qso ∧ Addresses qsoId user qso)
      (fun _ _ ↦ True) c :=
    wp_ownQso (fun d hd qso hqso hown ↦ ⟨d, hd, hqso, hown⟩) fun _ ↦ trivial
  exact wp_mono (wp_and (ownQso_of_readable h qsoId) hfound) (fun _ _ h ↦ h) fun _ _ h ↦ h.1

/-- The items of a page of shown documents are shown. -/
theorem exists_validate_items {operator : String} {docs : List Doc} {qsos : List QSO} (h : Shown c)
    (hdocs : ∀ d ∈ docs, d ∈ c.docs ∧ activeQuery operator d = true)
    (hqsos : docs.mapM (qsoFromMongoDoc env.now) = .ok qsos) :
    ∃ items, (qsos.map qsoToDict).mapM QSOResponse.validate = .ok items := by
  refine exists_mapM_of_forall fun item hitem ↦ ?_
  obtain ⟨qso, hqso, rfl⟩ := List.mem_map.1 hitem
  obtain ⟨d, hd, hhydrate⟩ := exists_of_mem_mapM hqsos hqso
  obtain ⟨hmem, hactive⟩ := hdocs d hd
  exact validate_of_presentable (h d hmem) hhydrate
    (operator_of_activeQuery hactive (h d hmem).operator)

/-- A listing fails before it reads, and then on every log, or it shows documents that the query
for active QSOs finds. -/
theorem listQsosRoute_cases [QueryEngine] (env : Env) (params : ListParams) (user : User) :
    (∃ exc, ∀ c, (listQsosRoute env params user : Db _) c = .error exc c) ∨
      ∀ c, ∃ docs : List Doc, (∀ d ∈ docs, d ∈ c.docs ∧ activeQuery user.callsign d = true) ∧
        ∀ qsos, docs.mapM (qsoFromMongoDoc env.now) = .ok qsos →
          ∀ items, (qsos.map qsoToDict).mapM QSOResponse.validate = .ok items →
            ∃ response, (listQsosRoute env params user : Db _) c = .ok response c := by
  have hrefused : ∀ exc, (∀ c, wp (listQsosRoute env params user : Db _) (fun _ _ ↦ False)
      (fun e c' ↦ e = exc ∧ c' = c) c) →
      ∃ exc, ∀ c, (listQsosRoute env params user : Db _) c = .error exc c :=
    fun exc hwp ↦ ⟨exc, fun c ↦ eq_error_of_wp (hwp c)⟩
  cases hfrom : dateParam params.dateFrom "0000" with
  | error exc =>
    refine .inl (hrefused exc fun c ↦ ?_)
    simp only [listQsosRoute, listQsos, wp_bind, wp_ofExcept, hfrom, reduceCtorEq, false_imp_iff,
      implies_true, Except.error.injEq, forall_eq', and_self]
  | ok dateFrom =>
  cases hto : dateParam params.dateTo "2359" with
  | error exc =>
    refine .inl (hrefused exc fun c ↦ ?_)
    simp only [listQsosRoute, listQsos, wp_bind, wp_ofExcept, hfrom, hto, reduceCtorEq,
      false_imp_iff, implies_true, Except.error.injEq, Except.ok.injEq, forall_eq', and_self]
  | ok dateTo =>
  cases hquery : pageQuery user.callsign params dateFrom dateTo with
  | error exc =>
    refine .inl (hrefused exc fun c ↦ ?_)
    simp only [listQsosRoute, listQsos, getQsoPage, wp_bind, wp_ofExcept, hfrom, hto, hquery,
      reduceCtorEq, false_imp_iff, implies_true, Except.error.injEq, Except.ok.injEq, forall_eq',
      and_self]
  | ok query =>
  by_cases hskip : 2 ^ 63 ≤ (params.page - 1) * params.pageSize
  · refine .inl (hrefused (.overflowError "MongoDB can only handle up to 8-byte ints") fun c ↦ ?_)
    simp only [listQsosRoute, listQsos, getQsoPage, findPage, wp_bind, wp_ofExcept, wp_liftM,
      wp_countDocuments, if_pos hskip, wp_throw, hfrom, hto, hquery, reduceCtorEq, false_imp_iff,
      implies_true, Except.ok.injEq, forall_eq', and_self]
  · refine .inr fun c ↦ ⟨((QueryEngine.sorted (mongoSort params.sort).1 (mongoSort params.sort).2
      (c.docs.filter query)).drop ((params.page - 1) * params.pageSize)).take params.pageSize,
      fun d hd ↦ ?_, fun qsos hqsos items hitems ↦ ⟨⟨items, (c.docs.filter query).length,
        params.page, params.pageSize⟩, eq_ok_of_wp ?_⟩⟩
    · have hfound := List.mem_filter.1 ((QueryEngine.sorted_perm ..).mem_iff.1
        (List.mem_of_mem_drop (List.mem_of_mem_take hd)))
      obtain ⟨matchesCall, -, hq⟩ := bind_eq_ok.1 hquery
      cases hq
      exact ⟨hfound.1, (Bool.and_eq_true_iff.1 hfound.2).1⟩
    · have hvalid : QSOListResponse.validate ⟨qsos.map qsoToDict, (c.docs.filter query).length,
          params.page, params.pageSize⟩ = .ok ⟨items, (c.docs.filter query).length, params.page,
          params.pageSize⟩ := by
        rw [QSOListResponse.validate, hitems]
        rfl
      simp only [listQsosRoute, listQsos, getQsoPage, findPage, wp_bind, wp_ofExcept, wp_liftM,
        wp_countDocuments, if_neg hskip, wp_get, wp_pure, hfrom, hto, hquery, hqsos, hvalid,
        reduceCtorEq, false_imp_iff, implies_true, Except.ok.injEq, forall_eq', and_self]

/-- **The requests that read a user's log have an answer**, whatever is stored in it.  A listing
fails only where it fails on every log, and a QSO is not found only where its address leads
nowhere. -/
structure Answers [QueryEngine] (env : Env) (user : User) (c : Collection) : Prop where
  listed : ∀ params, wp (listQsosRoute env params user : Db _) (fun _ c' ↦ c' = c)
    (fun exc _ ↦ ∀ c₀, (listQsosRoute env params user : Db _) c₀ = .error exc c₀) c
  got : ∀ qsoId, wp (getQsoRoute env qsoId user : Db _) (fun _ c' ↦ c' = c)
    (fun exc c' ↦ exc = notFound ∧ c' = c) c
  exported : wp (exportAdif env user : Db _) (fun _ c' ↦ c' = c) (fun _ _ ↦ False) c
  /-- A deletion needs a free hash for its tombstone as well. -/
  deleted : ∀ qsoId, (∀ d ∈ c.docs, d["_id"]? = (ObjectId.ofText qsoId).map Value.oid →
      TombstoneFree d c) →
    wp (deleteQso env qsoId user : Db _) (fun _ _ ↦ True) (fun exc c' ↦ exc = notFound ∧ c' = c) c

/-- **A log whose documents can be shown answers.** -/
theorem Shown.answers [QueryEngine] (h : Shown c) : Answers env user c where
  listed params := by
    rw [wp]
    obtain ⟨exc, hexc⟩ | hshows := listQsosRoute_cases env params user
    · rw [hexc]
      exact hexc
    · obtain ⟨docs, hdocs, hshow⟩ := hshows c
      obtain ⟨qsos, hqsos⟩ := exists_mapM_of_forall fun d hd ↦
        h.readable d (hdocs d hd).1 env.now
      obtain ⟨items, hitems⟩ := exists_validate_items h hdocs hqsos
      obtain ⟨response, hresponse⟩ := hshow qsos hqsos items hitems
      rw [hresponse]
  got qsoId := by
    simp only [getQsoRoute, getQso, wp_bind]
    refine wp_mono (wp_ownQso_of_readable h.readable qsoId) (fun qso c' hqso ↦ ?_)
      fun _ _ hexc ↦ hexc
    obtain ⟨rfl, d, hd, hhydrate, hown⟩ := hqso
    obtain ⟨response, hresponse⟩ :=
      validate_of_presentable (h d hd) hhydrate (operator_of_hydrated hhydrate hown.own)
    exact wp_ofExcept.2 ⟨fun _ _ ↦ rfl, fun exc hexc ↦ by cases hresponse.symm.trans hexc⟩
  exported := exportAdif_of_readable h.readable
  deleted qsoId hfree := by
    rw [deleteQso, wp_bind]
    refine wp_mono (wp_ownQso_of_readable h.readable qsoId) (fun qso c' hqso ↦ ?_)
      fun _ _ hexc ↦ hexc
    obtain ⟨rfl, d, hd, hhydrate, hown⟩ := hqso
    obtain ⟨id, hid⟩ := Option.isSome_iff_exists.1 (c'.ids_present d hd)
    have haddressed : d["_id"]? = (ObjectId.ofText qsoId).map Value.oid := by
      rw [hown.id, id_of_hydrated hhydrate hid, hid]
    obtain ⟨c'', hdelete, -⟩ := (softDeleteQso_of_declared hd (h d hd).declared hhydrate).2
      (hfree d hd haddressed)
    rw [wp, hdelete]
    trivial

/-- **Hydration never fails**, and the requests that read the log have their answer, in every log
that was written by requests none of which writes under the names of a response what it cannot
show. -/
theorem answers_of_sparesReaders [QueryEngine] {fullName : String} {rowHashUnique : Bool}
    {events : List (Env × Request)} (h : ∀ event ∈ events, event.2.SparesReaders) :
    let c := run step (.empty fullName rowHashUnique) events
    Readable c ∧ ∀ (env : Env) (user : User), Answers env user c :=
  ⟨(shown_run h).readable, fun _ _ ↦ (shown_run h).answers⟩

end

section

attribute [local instance] UnicodeData.ascii QueryEngine.unsorted

theorem answers_of_patched_notes :
    let c := run step Sample.log [(Sample.env, .create Sample.contact false Sample.user),
      (Sample.env, .patch Sample.firstId (Sample.oneText "NOTES" "5 W") Sample.user)]
    Readable c ∧ ∀ (env : Env) (user : User), Answers env user c := by
  refine answers_of_sparesReaders fun event hevent ↦ ?_
  simp only [List.mem_cons, List.not_mem_nil, or_false] at hevent
  obtain rfl | rfl := hevent
  · exact fun hempty ↦ absurd hempty (by decide)
  · have hname : ∀ k ∈ (Sample.oneText "NOTES" "5 W").fields, k = "NOTES" :=
      fun k hk ↦ Sample.eq_of_mem_oneText hk
    have hvalue : ∀ (k : String) (v : Value), (Sample.oneText "NOTES" "5 W").fields[k]? = some v →
        ∃ s, v = .str s := fun k v hv ↦ ⟨_, (Sample.eq_of_getElem?_oneText hv).2⟩
    exact {
      keywords := fun k hk _ ↦ by
        rw [hname k hk]
        decide
      call := hvalue _
      texts := fun k _ v hv ↦ .inr (hvalue k v hv)
      whole := fun k hk _ ↦ by
        rw [hname k hk]
        decide }

/-- A number under the name of a text hydrates, but it cannot be shown. -/
example : (match (listQsosRoute Sample.env {} Sample.user : Db _) (run step Sample.log
    [(Sample.env, .create Sample.contact false Sample.user), (Sample.env, .patch Sample.firstId
      (Sample.oneField "FREQ" (.float "14.074") rfl) Sample.user)]) with
    | .error (.responseValidationError field) _ => field == "FREQ"
    | _ => false) = true := by
  decide +kernel

end

end Ollog

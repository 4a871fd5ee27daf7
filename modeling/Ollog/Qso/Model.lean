import Ollog.Hashing
import Ollog.Lib.Effects
import Ollog.Python.Exceptions

/-!
# The `QSO` model

A QSO travels between three shapes: the dictionary a request builds, the pydantic model, and the
stored document.  The model has nine declared fields, each with the name the document uses for it
(its alias), and keeps every other field as it is (`extra="allow"`).

`model_construct` takes the declared fields and the extra ones as keyword arguments of one call,
so it fails when an extra field is named like a declared one; the names that do this to a stored
document are `clashingNames` (`qsoFromMongoDoc_isOk_iff`).  Where it succeeds, dumping a hydrated
document gives the document back, field by field (`getElem?_modelDump_of_hydrated`).
-/

set_option autoImplicit false

namespace Ollog

open Effects

/-! ## The model -/

/-- A `QSO` instance.  `model_construct` validates nothing, so every field holds any value. -/
structure QSO where
  id : Value
  operatorCallsign : Value
  call : Value
  band : Value
  mode : Value
  qsoDateUtc : Value
  isDeleted : Value
  createdAt : Value
  rowHash : Value
  /-- `model_extra`: the fields the model does not declare. -/
  modelExtra : Doc

/-- The names under which the declared fields are passed to `model_construct`. -/
def declaredNames : List String :=
  ["id", "operator_callsign", "CALL", "BAND", "MODE", "qso_date_utc", "is_deleted", "created_at",
    "row_hash"]

/-- The names under which the declared fields are stored. -/
def aliasNames : List String :=
  ["_id", "_operator", "CALL", "BAND", "MODE", "qso_date_utc", "_deleted", "_created_at", "rowHash"]

/-- Extra keywords that `model_construct` takes without keeping them among the extra fields: its
own parameter, and Beanie's revision, which is declared but excluded from every dump. -/
def hiddenNames : List String := ["_fields_set", "revision_id"]

namespace QSO

/-- `QSO.model_construct(**declared, **extra)`.  No caller leaves an alias among the extra
fields. -/
def modelConstruct (declared : QSO) (extra : Doc) : Except PyErr QSO :=
  match extra.keys.find? fun k ↦ k = "cls" ∨ k ∈ declaredNames with
  | some k => .error (.typeError
      ("model_construct() got multiple values for keyword argument '" ++ k ++ "'"))
  | none => .ok { declared with modelExtra := extra.keep fun k ↦ k ∉ hiddenNames }

/-- `qso.model_dump(by_alias=True)`. -/
def modelDump (qso : QSO) : Doc :=
  .ofList [("_id", qso.id), ("_operator", qso.operatorCallsign), ("CALL", qso.call),
    ("BAND", qso.band), ("MODE", qso.mode), ("qso_date_utc", qso.qsoDateUtc),
    ("_deleted", qso.isDeleted), ("_created_at", qso.createdAt), ("rowHash", qso.rowHash)] ∪
  qso.modelExtra

/-- `qso.model_dump(by_alias=False)`. -/
def modelDumpByName (qso : QSO) : Doc :=
  .ofList [("id", qso.id), ("operator_callsign", qso.operatorCallsign), ("CALL", qso.call),
    ("BAND", qso.band), ("MODE", qso.mode), ("qso_date_utc", qso.qsoDateUtc),
    ("is_deleted", qso.isDeleted), ("created_at", qso.createdAt), ("row_hash", qso.rowHash)] ∪
  qso.modelExtra

/-- `refresh_row_hash`. -/
def refreshRowHash [UnicodeData] (qso : QSO) : QSO :=
  { qso with rowHash := .str (canonicalDocumentHash qso.modelDump) }

end QSO

/-! ## From and to documents -/

/-- `qso_from_mongo_doc` of a document.  `now` is what the default factory of `created_at` reads
off the clock. -/
def qsoFromMongoDoc (now : DateTime) (doc : Doc) : Except PyErr QSO :=
  QSO.modelConstruct {
    id := Doc.get doc "_id" .null
    operatorCallsign := Doc.get doc "_operator" .null
    call := Doc.get doc "CALL" .null
    band := Doc.get doc "BAND" .null
    mode := Doc.get doc "MODE" .null
    qsoDateUtc := Doc.get doc "qso_date_utc" .null
    isDeleted := Doc.get doc "_deleted" (.bool false)
    createdAt := Doc.get doc "_created_at" (.datetime now)
    rowHash := Doc.get doc "rowHash" (.str "")
    modelExtra := ∅ }
    (doc.keep fun k ↦ k ∉ aliasNames)

/-- `qso_from_mongo_doc` of what `find_one` returns. -/
def qsoFromFound (now : DateTime) : Option Doc → Except PyErr (Option QSO)
  | none => .ok none
  | some doc => do .ok (some (← qsoFromMongoDoc now doc))

/-- `qso_to_mongo_doc`, with the fresh `ObjectId()` for a QSO without one. -/
def qsoToMongoDoc (oid : ObjectId) (qso : QSO) : Doc :=
  let doc := qso.modelDump
  if Doc.get doc "_id" .null = .null then doc.insert "_id" (.oid oid) else doc

/-- The fields of an input dictionary that are not passed on as extra fields. -/
def inputExcluded : List String :=
  ["_id", "id", "_operator", "operator_callsign", "CALL", "BAND", "MODE", "qso_date_utc",
    "_deleted", "is_deleted", "_created_at", "created_at", "rowHash", "row_hash"]

/-- The `_id` of a new QSO: the one the input has, unless that is falsy, or a fresh one. -/
def inputId (oid : ObjectId) (qsoDict : Doc) : Value :=
  (Value.orElse (Value.orElse qsoDict["_id"]? qsoDict["id"]?) (some (.oid oid))).getD .null

/-- The declared fields `qso_from_input_dict` passes to the constructor. -/
def inputDeclared (now : DateTime) (oid : ObjectId) (qsoDict : Doc) : QSO where
  id := inputId oid qsoDict
  operatorCallsign :=
    (Value.orElse qsoDict["operator_callsign"]? qsoDict["_operator"]?).getD .null
  call := Doc.get qsoDict "CALL" .null
  band := Doc.get qsoDict "BAND" .null
  mode := Doc.get qsoDict "MODE" .null
  qsoDateUtc := Doc.get qsoDict "qso_date_utc" .null
  isDeleted := Doc.get qsoDict "is_deleted" (Doc.get qsoDict "_deleted" (.bool false))
  createdAt := Doc.get qsoDict "created_at" (Doc.get qsoDict "_created_at" (.datetime now))
  rowHash := Doc.get qsoDict "row_hash" (Doc.get qsoDict "rowHash" (.str ""))
  modelExtra := ∅

/-- `qso_from_input_dict`. -/
def qsoFromInputDict [UnicodeData] (now : DateTime) (oid : ObjectId) (qsoDict : Doc) :
    Except PyErr QSO := do
  let qso ← QSO.modelConstruct (inputDeclared now oid qsoDict)
    (qsoDict.keep fun k ↦ k ∉ inputExcluded)
  return qso.refreshRowHash

/-! ## What the constructor does -/

namespace QSO

theorem modelConstruct_eq_ok {declared q : QSO} {extra : Doc} :
    modelConstruct declared extra = .ok q ↔
      (∀ k ∈ extra, k ≠ "cls" ∧ k ∉ declaredNames) ∧
        q = { declared with modelExtra := extra.keep fun k ↦ k ∉ hiddenNames } := by
  rw [modelConstruct]
  split
  · rename_i k hk
    have hclash : k = "cls" ∨ k ∈ declaredNames := by simpa using List.find?_some hk
    have hmem := Std.ExtTreeMap.mem_keys.1 (List.mem_of_find?_eq_some hk)
    refine ⟨fun h ↦ by simp at h, fun ⟨h, _⟩ ↦ ?_⟩
    exact absurd hclash (not_or.2 (h k hmem))
  · rename_i hnone
    rw [List.find?_eq_none] at hnone
    rw [Except.ok.injEq, eq_comm]
    refine ⟨fun h ↦ ⟨fun k hk ↦ ?_, h⟩, fun h ↦ h.2⟩
    simpa using hnone k (Std.ExtTreeMap.mem_keys.2 hk)

/-- The fields of a dump: the extra ones, and under their aliases the declared ones. -/
theorem getElem?_modelDump (qso : QSO) (k : String) :
    qso.modelDump[k]? = qso.modelExtra[k]?.or
      (if k = "_id" then some qso.id
      else if k = "_operator" then some qso.operatorCallsign
      else if k = "CALL" then some qso.call
      else if k = "BAND" then some qso.band
      else if k = "MODE" then some qso.mode
      else if k = "qso_date_utc" then some qso.qsoDateUtc
      else if k = "_deleted" then some qso.isDeleted
      else if k = "_created_at" then some qso.createdAt
      else if k = "rowHash" then some qso.rowHash
      else none) := by
  rw [modelDump, Doc.getElem?_update]
  congr 1
  simp only [Std.ExtTreeMap.ofList_cons, Std.ExtTreeMap.insertMany_cons,
    Std.ExtTreeMap.insertMany_nil, Doc.getElem?_insert, Std.ExtTreeMap.getElem?_empty]
  grind

/-- A field that is neither declared nor an alias is looked up among the extra ones. -/
theorem getElem?_modelDumpByName (qso : QSO) {k : String} (hk : k ∉ declaredNames) :
    qso.modelDumpByName[k]? = qso.modelExtra[k]? := by
  rw [modelDumpByName, Doc.getElem?_update]
  simp only [declaredNames, List.mem_cons, List.not_mem_nil, or_false, not_or] at hk
  simp only [Std.ExtTreeMap.ofList_cons, Std.ExtTreeMap.insertMany_cons,
    Std.ExtTreeMap.insertMany_nil, Doc.getElem?_insert, Std.ExtTreeMap.getElem?_empty, hk,
    if_false, Option.or_none]

/-- The row hash is not part of what is hashed. -/
theorem canonicalDocumentHash_refreshRowHash [UnicodeData] (qso : QSO) :
    canonicalDocumentHash qso.refreshRowHash.modelDump = canonicalDocumentHash qso.modelDump := by
  refine canonicalDocumentHash_congr fun k hk ↦ ?_
  have hne : k ≠ "rowHash" := fun h ↦ hk (h ▸ by decide)
  rw [getElem?_modelDump, getElem?_modelDump, refreshRowHash]
  simp only [hne, if_false]

end QSO

/-! ## Hydration -/

/-- The names no stored document may have a field of: hydration would pass them twice. -/
def clashingNames : List String :=
  ["id", "operator_callsign", "is_deleted", "created_at", "row_hash", "cls"]

/-- A keyword of `model_construct` that is not an alias is a clashing name. -/
theorem mem_clashingNames_iff {k : String} :
    k ∈ clashingNames ↔ k ∉ aliasNames ∧ (k = "cls" ∨ k ∈ declaredNames) := by
  constructor
  · intro h
    simp only [clashingNames, List.mem_cons, List.not_mem_nil, or_false] at h
    rcases h with rfl | rfl | rfl | rfl | rfl | rfl <;> decide
  · rintro ⟨halias, rfl | h⟩
    · decide
    · simp only [declaredNames, List.mem_cons, List.not_mem_nil, or_false] at h
      rcases h with rfl | rfl | rfl | rfl | rfl | rfl | rfl | rfl | rfl <;>
        first | decide | exact absurd (by decide) halias

/-- The value hydration gives a declared field that the document lacks. -/
def aliasDefault (now : DateTime) (k : String) : Value :=
  if k = "_deleted" then .bool false
  else if k = "_created_at" then .datetime now
  else if k = "rowHash" then .str ""
  else .null

/-- **A document can be hydrated unless it has a field with a clashing name.** -/
theorem qsoFromMongoDoc_isOk_iff {now : DateTime} {doc : Doc} :
    (∃ qso, qsoFromMongoDoc now doc = .ok qso) ↔ ∀ k ∈ clashingNames, k ∉ doc := by
  have hkeep : ∀ k, k ∈ doc.keep (fun k ↦ k ∉ aliasNames) ↔ k ∉ aliasNames ∧ k ∈ doc := by
    intro k
    rw [Doc.mem_iff_ne_none, Doc.mem_iff_ne_none, Doc.getElem?_keep]
    by_cases h : k ∈ aliasNames <;> simp [h]
  simp only [qsoFromMongoDoc, QSO.modelConstruct_eq_ok, exists_and_left, exists_eq, and_true, hkeep]
  constructor
  · intro h k hk hmem
    obtain ⟨halias, hkw⟩ := mem_clashingNames_iff.1 hk
    exact absurd hkw (not_or.2 (h k ⟨halias, hmem⟩))
  · rintro h k ⟨halias, hmem⟩
    rw [← not_or]
    exact fun hkw ↦ h k (mem_clashingNames_iff.2 ⟨halias, hkw⟩) hmem

/-- The `_id` of a hydrated QSO is the one of the document. -/
theorem id_of_hydrated {now : DateTime} {doc : Doc} {qso : QSO}
    (h : qsoFromMongoDoc now doc = .ok qso) {id : Value} (hid : doc["_id"]? = some id) :
    qso.id = id := by
  rw [(QSO.modelConstruct_eq_ok.1 h).2]
  dsimp only
  rw [Doc.get, hid, Option.getD_some]

/-- An extra field of a hydrated QSO is the field of the document. -/
theorem getElem?_modelExtra_of_hydrated {now : DateTime} {doc : Doc} {qso : QSO}
    (h : qsoFromMongoDoc now doc = .ok qso) (k : String) :
    qso.modelExtra[k]? = if k ∈ hiddenNames ∨ k ∈ aliasNames then none else doc[k]? := by
  rw [(QSO.modelConstruct_eq_ok.1 h).2, Doc.getElem?_keep, Doc.getElem?_keep]
  by_cases h₁ : k ∈ hiddenNames <;> by_cases h₂ : k ∈ aliasNames <;> simp [h₁, h₂]

/-- **Dumping a hydrated document gives the document back**, with the defaults of the declared
fields it lacks, and without the fields the model hides. -/
theorem getElem?_modelDump_of_hydrated {now : DateTime} {doc : Doc} {qso : QSO}
    (h : qsoFromMongoDoc now doc = .ok qso) (k : String) :
    qso.modelDump[k]? =
      if k ∈ aliasNames then some (Doc.get doc k (aliasDefault now k))
      else if k ∈ hiddenNames then none else doc[k]? := by
  rw [QSO.getElem?_modelDump, getElem?_modelExtra_of_hydrated h]
  by_cases halias : k ∈ aliasNames
  · rw [if_pos (.inr halias), if_pos halias, (QSO.modelConstruct_eq_ok.1 h).2, Option.none_or]
    simp only [aliasNames, List.mem_cons, List.not_mem_nil, or_false] at halias
    rcases halias with rfl | rfl | rfl | rfl | rfl | rfl | rfl | rfl | rfl <;> rfl
  · simp only [halias, or_false, if_false]
    simp only [aliasNames, List.mem_cons, List.not_mem_nil, or_false, not_or] at halias
    simp only [halias, if_false, Option.or_none]

/-! ## New documents -/

theorem inputId_ne_null (oid : ObjectId) (qsoDict : Doc) : inputId oid qsoDict ≠ .null := by
  rw [inputId]
  cases hor : Value.orElse qsoDict["_id"]? qsoDict["id"]? with
  | none => simp [Value.orElse]
  | some v =>
    rw [Value.orElse]
    split
    · rename_i htruthy
      rintro rfl
      cases htruthy
    · simp

/-- The QSO of an input dictionary, before its hash is taken. -/
def inputQso (now : DateTime) (oid : ObjectId) (qsoDict : Doc) : QSO :=
  { inputDeclared now oid qsoDict with
    modelExtra := qsoDict.keep fun k ↦ k ∉ inputExcluded ∧ k ∉ hiddenNames }

/-- The extra fields of an input dictionary clash with nothing but the constructor's own
parameter, since every declared name is taken out of them. -/
theorem qsoFromInputDict_eq_ok [UnicodeData] {now : DateTime} {oid : ObjectId} {qsoDict : Doc}
    {qso : QSO} :
    qsoFromInputDict now oid qsoDict = .ok qso ↔
      "cls" ∉ qsoDict ∧ qso = (inputQso now oid qsoDict).refreshRowHash := by
  have hexcluded : ∀ k ∈ declaredNames, k ∈ inputExcluded := by decide
  have hmem : ∀ k, k ∈ qsoDict.keep (fun k ↦ k ∉ inputExcluded) ↔
      k ∉ inputExcluded ∧ k ∈ qsoDict := by
    intro k
    rw [Doc.mem_iff_ne_none, Doc.mem_iff_ne_none, Doc.getElem?_keep]
    by_cases h : k ∈ inputExcluded <;> simp [h]
  have hextra : (qsoDict.keep fun k ↦ k ∉ inputExcluded).keep (fun k ↦ k ∉ hiddenNames) =
      qsoDict.keep fun k ↦ k ∉ inputExcluded ∧ k ∉ hiddenNames := by
    refine Std.ExtTreeMap.ext_getElem? fun k ↦ ?_
    simp only [Doc.getElem?_keep]
    by_cases h₁ : k ∈ inputExcluded <;> by_cases h₂ : k ∈ hiddenNames <;> simp [h₁, h₂]
  simp only [qsoFromInputDict, bind_eq_ok, QSO.modelConstruct_eq_ok, hmem, hextra]
  constructor
  · rintro ⟨_, ⟨h, rfl⟩, hq⟩
    exact ⟨fun hcls ↦ (h "cls" ⟨by decide, hcls⟩).1 rfl, (Except.ok.inj hq).symm⟩
  · rintro ⟨hcls, rfl⟩
    refine ⟨_, ⟨fun k ⟨hk, hkmem⟩ ↦ ⟨fun h ↦ hcls (h ▸ hkmem), fun h ↦ hk (hexcluded k h)⟩,
      rfl⟩, rfl⟩

/-- **The document of a new QSO**, field by field. -/
theorem getElem?_newDoc [UnicodeData] {now : DateTime} {oid : ObjectId} {qsoDict : Doc} {qso : QSO}
    (h : qsoFromInputDict now oid qsoDict = .ok qso) (k : String) :
    (qsoToMongoDoc oid qso)[k]? =
      if k = "_id" then some (inputId oid qsoDict)
      else if k = "_operator" then
        some ((Value.orElse qsoDict["operator_callsign"]? qsoDict["_operator"]?).getD .null)
      else if k = "CALL" then some (Doc.get qsoDict "CALL" .null)
      else if k = "BAND" then some (Doc.get qsoDict "BAND" .null)
      else if k = "MODE" then some (Doc.get qsoDict "MODE" .null)
      else if k = "qso_date_utc" then some (Doc.get qsoDict "qso_date_utc" .null)
      else if k = "_deleted" then
        some (Doc.get qsoDict "is_deleted" (Doc.get qsoDict "_deleted" (.bool false)))
      else if k = "_created_at" then
        some (Doc.get qsoDict "created_at" (Doc.get qsoDict "_created_at" (.datetime now)))
      else if k = "rowHash" then some (.str (canonicalDocumentHash (qsoToMongoDoc oid qso)))
      else if k ∈ inputExcluded ∨ k ∈ hiddenNames then none
      else qsoDict[k]? := by
  obtain ⟨-, rfl⟩ := qsoFromInputDict_eq_ok.1 h
  have hextra : ∀ k ∈ aliasNames, (inputQso now oid qsoDict).modelExtra[k]? = none := by
    intro k hk
    have hin : ∀ k ∈ aliasNames, k ∈ inputExcluded := by decide
    rw [inputQso, Doc.getElem?_keep, if_neg (by simp [hin k hk])]
  have hdump : qsoToMongoDoc oid (inputQso now oid qsoDict).refreshRowHash =
      (inputQso now oid qsoDict).refreshRowHash.modelDump := by
    refine if_neg ?_
    rw [Doc.get, QSO.getElem?_modelDump]
    simp only [QSO.refreshRowHash, hextra "_id" (by decide), if_true, Option.none_or,
      Option.getD_some]
    exact inputId_ne_null oid qsoDict
  rw [hdump, QSO.canonicalDocumentHash_refreshRowHash, QSO.getElem?_modelDump]
  by_cases halias : k ∈ aliasNames
  · simp only [QSO.refreshRowHash, hextra k halias, Option.none_or]
    simp only [aliasNames, List.mem_cons, List.not_mem_nil, or_false] at halias
    rcases halias with rfl | rfl | rfl | rfl | rfl | rfl | rfl | rfl | rfl <;> rfl
  · simp only [aliasNames, List.mem_cons, List.not_mem_nil, or_false, not_or] at halias
    simp only [QSO.refreshRowHash, inputQso, halias, if_false, Option.or_none, Doc.getElem?_keep]
    by_cases h₁ : k ∈ inputExcluded <;> by_cases h₂ : k ∈ hiddenNames <;> simp [h₁, h₂]

/-- A new document has every declared field. -/
theorem mem_newDoc [UnicodeData] {now : DateTime} {oid : ObjectId} {qsoDict : Doc} {qso : QSO}
    (h : qsoFromInputDict now oid qsoDict = .ok qso) {k : String} (hk : k ∈ aliasNames) :
    k ∈ qsoToMongoDoc oid qso := by
  rw [Doc.mem_iff_ne_none, getElem?_newDoc h]
  simp only [aliasNames, List.mem_cons, List.not_mem_nil, or_false] at hk
  rcases hk with rfl | rfl | rfl | rfl | rfl | rfl | rfl | rfl | rfl <;>
    simp only [String.reduceEq, if_true, if_false] <;> exact Option.some_ne_none _

/-- A field of a new document that is not declared is one of the dictionary. -/
theorem getElem?_newDoc_extra [UnicodeData] {now : DateTime} {oid : ObjectId} {qsoDict : Doc}
    {qso : QSO} (h : qsoFromInputDict now oid qsoDict = .ok qso) {k : String} (hk : k ∉ aliasNames) :
    (qsoToMongoDoc oid qso)[k]? =
      if k ∈ inputExcluded ∨ k ∈ hiddenNames then none else qsoDict[k]? := by
  simp only [aliasNames, List.mem_cons, List.not_mem_nil, or_false, not_or] at hk
  rw [getElem?_newDoc h]
  simp only [hk, if_false]

end Ollog

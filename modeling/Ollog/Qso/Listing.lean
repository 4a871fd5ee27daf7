import Ollog.Qso.Hydration

/-!
# Listing a log

`GET /api/qsos` shows a page of the active QSOs of its user.  The filters are part of the query, and
the order and the page are left to the server.  Two things the server does are parameters here: what
a regular expression finds in a text, and how documents with mixed types are ordered, of which only
matters that sorting neither adds nor loses one.
-/

set_option autoImplicit false

namespace Ollog

open Effects

/-! ## The query engine -/

/-- What a listing leaves to the server. -/
class QueryEngine where
  /-- `{"$regex": re.escape(text), "$options": "i"}`, with the error for a text the server does not
  take. -/
  caseless (text : String) : Except PyErr (String → Bool)
  /-- A sort by one field, in ascending or descending order. -/
  sorted (field : String) (descending : Bool) (docs : List Doc) : List Doc
  sorted_perm : ∀ (field : String) (descending : Bool) (docs : List Doc),
    (sorted field descending docs).Perm docs

/-- A server that leaves documents as they are, and takes no regular expression. -/
@[reducible] def QueryEngine.unsorted : QueryEngine where
  caseless _ := .error (.writeError "regular expression is invalid")
  sorted _ _ docs := docs
  sorted_perm _ _ docs := .refl docs

/-- `collection.count_documents(query)`. -/
def countDocuments (query : Doc → Bool) : Db Nat := do
  return ((← get).docs.filter query).length

/-- `collection.find(query).sort(...).skip(skip).limit(limit)`. -/
def findPage [QueryEngine] (query : Doc → Bool) (sort : String × Bool) (skip limit : Nat) :
    Db (List Doc) := do
  if 2 ^ 63 ≤ skip then throw (.overflowError "MongoDB can only handle up to 8-byte ints")
  return ((QueryEngine.sorted sort.1 sort.2 ((← get).docs.filter query)).drop skip).take limit

section Wp

variable {E : PyErr → Collection → Prop} {c : Collection} {query : Doc → Bool}

@[simp] theorem wp_countDocuments {Q : Nat → Collection → Prop} :
    wp (countDocuments query) Q E c ↔ Q (c.docs.filter query).length c := Iff.rfl

/-- A page consists of documents of the collection that match the query. -/
theorem wp_findPage [QueryEngine] {sort : String × Bool} {skip limit : Nat}
    {Q : List Doc → Collection → Prop} (hE : ∀ exc, E exc c)
    (hQ : ∀ docs : List Doc, (∀ d ∈ docs, d ∈ c.docs ∧ query d = true) → Q docs c) :
    wp (findPage query sort skip limit) Q E c := by
  simp only [findPage, wp_ite, wp_throw, wp_bind, wp_get, wp_pure]
  refine ⟨fun _ ↦ hE _, fun _ ↦ hQ _ fun d hd ↦ ?_⟩
  have hsorted := List.mem_of_mem_drop (List.mem_of_mem_take hd)
  exact List.mem_filter.1 ((QueryEngine.sorted_perm ..).mem_iff.1 hsorted)

end Wp

/-! ## Pages -/

/-- `_ALLOWED_SORT_FIELDS`. -/
def allowedSortFields : List String :=
  ["-qso_date_utc", "qso_date_utc", "-CALL", "CALL", "-BAND", "BAND", "-MODE", "MODE",
    "-_created_at", "_created_at"]

/-- `_mongo_sort`, with the default for a field that is not allowed; `true` is descending. -/
def mongoSort (sortBy : String) : String × Bool :=
  let sortBy := if sortBy ∈ allowedSortFields then sortBy else "-qso_date_utc"
  match sortBy.toList with
  | '-' :: field => (String.ofList field, true)
  | _ => (sortBy, false)

/-- The query parameters of `GET /api/qsos`. -/
structure ListParams where
  page : Nat := 1
  pageSize : Nat := 50
  call : Option String := none
  band : Option String := none
  mode : Option String := none
  dateFrom : Option String := none
  dateTo : Option String := none
  sort : String := "-qso_date_utc"
  page_pos : 1 ≤ page := by decide
  pageSize_pos : 1 ≤ pageSize := by decide
  pageSize_le : pageSize ≤ 500 := by decide

theorem ListParams.one_pos : 1 ≤ 1 := Nat.le_refl 1

/-- What `list_qsos` returns. -/
structure QSOPage where
  items : List Doc
  total : Nat
  page : Nat
  pageSize : Nat

/-- A parameter that is given and not empty. -/
def givenParam (text : Option String) : Option String := text.filter (· ≠ "")

section

variable [UnicodeData] [QueryEngine] {m : Type → Type} [Monad m] [MonadExceptOf PyErr m]
  [MonadLiftT Db m]

/-- The filter on `CALL`. -/
def callFilter (call : Option String) : Except PyErr (Doc → Bool) :=
  match givenParam call with
  | none => .ok fun _ ↦ true
  | some text => do
    let found ← QueryEngine.caseless text
    return fun d ↦ Doc.fieldMatches d "CALL" fun
      | .str s => found s
      | _ => false

/-- A filter on the value of a field. -/
def valueFilter (k : String) (text : Option String) (d : Doc) : Bool :=
  match givenParam text with
  | none => true
  | some s => Doc.fieldIs d k (.str s)

/-- One of the two bounds of the filter on `qso_date_utc`. -/
def dateFilter (inBound : DateTime → Value → Bool) (bound : Option DateTime) (d : Doc) : Bool :=
  match bound with
  | none => true
  | some dt => Doc.fieldMatches d "qso_date_utc" (inBound dt)

/-- The query of `get_qso_page`. -/
def pageQuery (operator : String) (params : ListParams) (dateFrom dateTo : Option DateTime) :
    Except PyErr (Doc → Bool) := do
  let matchesCall ← callFilter params.call
  return fun d ↦ activeQuery operator d && (matchesCall d && valueFilter "BAND" params.band d &&
    valueFilter "MODE" params.mode d && dateFilter atLeast dateFrom d && dateFilter atMost dateTo d)

/-- `get_qso_page`. -/
def getQsoPage (env : Env) (operator : String) (params : ListParams)
    (dateFrom dateTo : Option DateTime) : m (List QSO × Nat) := do
  let query ← ofExcept (pageQuery operator params dateFrom dateTo)
  let total ← countDocuments query
  let docs ← findPage query (mongoSort params.sort) ((params.page - 1) * params.pageSize)
    params.pageSize
  let items ← ofExcept (docs.mapM (qsoFromMongoDoc env.now))
  return (items, total)

/-- The documents that pages are made from. -/
def listed (operator : String) (params : ListParams) (dateFrom dateTo : Option DateTime)
    (docs : List Doc) : Except PyErr (List Doc) := do
  return docs.filter (← pageQuery operator params dateFrom dateTo)

/-- A date parameter, at a time of day. -/
def dateParam (date : Option String) (time : String) : Except PyErr (Option DateTime) :=
  match givenParam date with
  | none => .ok none
  | some text => do return some (← parseAdifDatetime (.str text) (.str time))

/-- `list_qsos`. -/
def listQsos (env : Env) (params : ListParams) (user : User) : m QSOPage := do
  let dateFrom ← ofExcept (dateParam params.dateFrom "0000")
  let dateTo ← ofExcept (dateParam params.dateTo "2359")
  let (items, total) ← getQsoPage env user.callsign params dateFrom dateTo
  return { items := items.map qsoToDict, total, page := params.page, pageSize := params.pageSize }

omit [QueryEngine] in
/-- The id a client is shown is the text of the `_id`. -/
theorem getElem?_qsoToDict_id (qso : QSO) : (qsoToDict qso)["id"]? = some (.str qso.id.pyStr) := by
  unfold qsoToDict
  dsimp only
  split <;> simp only [Doc.getElem?_erase, Doc.getElem?_insert, String.reduceEq, if_true, if_false]

omit [UnicodeData] in
/-- **A page** is cut from the documents that are selected, in the order the server gives them. -/
theorem getQsoPage_listed {operator : String} {params : ListParams}
    {dateFrom dateTo : Option DateTime} {env : Env} {c c' : Collection} {items : List QSO} {total : Nat}
    (h : (getQsoPage env operator params dateFrom dateTo : Db _) c = .ok (items, total) c') :
    c' = c ∧ (params.page - 1) * params.pageSize < 2 ^ 63 ∧
      ∃ docs, listed operator params dateFrom dateTo c.docs = .ok docs ∧ total = docs.length ∧
      (((QueryEngine.sorted (mongoSort params.sort).1 (mongoSort params.sort).2 docs).drop
        ((params.page - 1) * params.pageSize)).take params.pageSize).mapM
          (qsoFromMongoDoc env.now) = .ok items := by
  have hwp : wp (getQsoPage env operator params dateFrom dateTo : Db _)
      (fun result c' ↦ c' = c ∧ (params.page - 1) * params.pageSize < 2 ^ 63 ∧
        ∃ docs, listed operator params dateFrom dateTo c.docs = .ok docs ∧ result.2 = docs.length ∧
        (((QueryEngine.sorted (mongoSort params.sort).1 (mongoSort params.sort).2 docs).drop
          ((params.page - 1) * params.pageSize)).take params.pageSize).mapM
            (qsoFromMongoDoc env.now) = .ok result.1) (fun _ _ ↦ True) c := by
    simp only [getQsoPage, findPage, wp_bind, wp_ofExcept, wp_liftM, wp_countDocuments, wp_ite,
      wp_throw, wp_get, wp_pure, implies_true, and_true, true_and]
    intro query hquery hskip items hitems
    refine ⟨Nat.not_le.1 hskip, _, ?_, rfl, hitems⟩
    rw [listed, hquery]
    rfl
  rwa [wp, h] at hwp

/-- **A listing** shows active documents of its user, and changes nothing. -/
theorem wp_listQsos {env : Env} {params : ListParams} {user : User} {c : Collection} :
    wp (listQsos env params user : Db _) (fun page c' ↦ c' = c ∧ ∀ item ∈ page.items,
        ∃ d ∈ c.docs, activeQuery user.callsign d = true ∧
          ∃ qso, qsoFromMongoDoc env.now d = .ok qso ∧ item = qsoToDict qso)
      (fun _ c' ↦ c' = c) c := by
  simp only [listQsos, getQsoPage, wp_bind, wp_ofExcept, wp_liftM, wp_countDocuments, implies_true,
    and_true]
  intro dateFrom _ dateTo _ query hquery
  refine wp_findPage (fun _ ↦ rfl) fun docs hdocs ↦ ?_
  simp only [wp_bind, wp_ofExcept, wp_pure, implies_true, and_true, true_and]
  intro items hitems item hitem
  obtain ⟨qso, hqso, rfl⟩ := List.mem_map.1 hitem
  obtain ⟨d, hd, hhydrate⟩ := exists_of_mem_mapM hitems hqso
  obtain ⟨hmem, hmatch⟩ := hdocs d hd
  obtain ⟨matchesCall, -, hq⟩ := bind_eq_ok.1 hquery
  cases hq
  exact ⟨d, hmem, (Bool.and_eq_true_iff.1 hmatch).1, qso, hhydrate, rfl⟩

end

end Ollog

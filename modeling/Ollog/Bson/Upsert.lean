import Ollog.Bson.Database

/-!
# Upserts

An update with `upsert=True` and a `$setOnInsert` leaves a document of the given `_id` alone, and
makes one where there is none.  What it makes is what `$set` makes of a document that has nothing
but the `_id`: a name with a dot in it is a path there as well, and does not come out as the name
it was.
-/

set_option autoImplicit false

namespace Ollog

open Effects

namespace Collection

/-- The document `{"$setOnInsert": set}` makes for an `_id`. -/
def upsertDoc (id : Value) (set : Doc) : Except PyErr Doc := do
  let doc ← applySet (Doc.toStored set) ((∅ : Doc).insert "_id" id.toStored)
  if doc["_id"]? = some id.toStored then return doc
  else throw (.writeError
    "Performing an update on the path '_id' would modify the immutable field '_id'")

/-- `update_one({"_id": id}, {"$setOnInsert": set}, upsert=True)`: the collection, and whether a
document was inserted. -/
def upsert (c : Collection) (id : Value) (set : Doc) : Except PyErr (Collection × Bool) :=
  if set.encodable && id.encodable then do
    checkPaths (Doc.toStored set).keys
    match c.findById id.toStored with
    | some _ => return (c, false)
    | none =>
      let c' ← c.insert (← upsertDoc id set)
      return (c', true)
  else .error encodeError

variable {c c' : Collection} {id : Value} {set d : Doc} {inserted : Bool}

/-- What is upserted has the `_id` that was asked for. -/
theorem upsertDoc_eq_ok (h : upsertDoc id set = .ok d) :
    applySet (Doc.toStored set) ((∅ : Doc).insert "_id" id.toStored) = .ok d ∧
      d["_id"]? = some id.toStored := by
  obtain ⟨doc, happly, hcheck⟩ := bind_eq_ok.1 h
  split at hcheck
  · rename_i hid
    cases hcheck
    exact ⟨happly, hid⟩
  · cases hcheck

/-- **What an upsert does**: nothing, where there is a document of that `_id`, or an insert. -/
theorem upsert_cases (h : c.upsert id set = .ok (c', inserted)) :
    (inserted = false ∧ c' = c ∧ ∃ e ∈ c.docs, e["_id"]? = some id.toStored) ∨
      (inserted = true ∧ (∀ e ∈ c.docs, e["_id"]? ≠ some id.toStored) ∧
        ∃ doc, upsertDoc id set = .ok doc ∧ c.insert doc = .ok c') := by
  rw [upsert] at h
  split at h
  swap
  · cases h
  obtain ⟨_, -, h⟩ := bind_eq_ok.1 h
  split at h
  · rename_i e he
    cases h
    exact .inl ⟨rfl, rfl, e, findById_eq_some.1 he⟩
  · rename_i hnone
    obtain ⟨doc, hdoc, h⟩ := bind_eq_ok.1 h
    obtain ⟨c'', hc'', h⟩ := bind_eq_ok.1 h
    cases h
    refine .inr ⟨rfl, fun e he hid ↦ ?_, doc, hdoc, hc''⟩
    rw [findById_eq_some.2 ⟨he, hid⟩] at hnone
    cases hnone

theorem extends_of_upsert (h : c.upsert id set = .ok (c', inserted)) : Extends c c' := by
  obtain ⟨-, rfl, -⟩ | ⟨-, -, doc, -, hinsert⟩ := upsert_cases h
  · exact .refl _
  · exact extends_of_insert hinsert

/-- After an upsert there is a document of that `_id`. -/
theorem exists_of_upsert (h : c.upsert id set = .ok (c', inserted)) :
    ∃ e ∈ c'.docs, e["_id"]? = some id.toStored := by
  have hencodable : (set.encodable && id.encodable) = true := by
    by_contra hnot
    rw [upsert, if_neg hnot] at h
    cases h
  rw [Bool.and_eq_true] at hencodable
  obtain ⟨-, rfl, hpresent⟩ | ⟨-, -, doc, hdoc, hinsert⟩ := upsert_cases h
  · exact hpresent
  · refine ⟨Doc.toStored doc, ?_, ?_⟩
    · rw [(insert_eq_ok hinsert).1]
      exact List.mem_append_right _ (List.mem_cons_self ..)
    · rw [Doc.getElem?_toStored, (upsertDoc_eq_ok hdoc).2, Option.map_some,
        Value.toStored_of_isStored _ (Value.isStored_toStored id hencodable.2)]

/-- What was once upserted is left alone from then on. -/
theorem upsert_again {c'' : Collection} (h : c.upsert id set = .ok (c', inserted))
    (hext : Extends c' c'') : c''.upsert id set = .ok (c'', false) := by
  obtain ⟨e, he, hid⟩ := exists_of_upsert h
  rw [upsert] at h ⊢
  split at h
  swap
  · cases h
  rename_i hencodable
  obtain ⟨_, hcheck, -⟩ := bind_eq_ok.1 h
  rw [if_pos hencodable, hcheck, findById_eq_some.2 ⟨hext.mem he, hid⟩]
  rfl

/-- A collection takes what a larger one takes. -/
theorem exists_insert_of_extends {c'' : Collection} (hext : Extends c c')
    (h : c'.insert d = .ok c'') : ∃ c₁, c.insert d = .ok c₁ := by
  have hany : ∀ k, ¬ (c'.docs.any fun e ↦ Doc.clash k e (Doc.toStored d)) = true →
      ¬ (c.docs.any fun e ↦ Doc.clash k e (Doc.toStored d)) = true := by
    intro k hno hany
    obtain ⟨e, he, hclash⟩ := List.any_eq_true.1 hany
    exact hno (List.any_eq_true.2 ⟨e, hext.mem he, hclash⟩)
  unfold insert at h ⊢
  dsimp only at h ⊢
  split at h
  · cases h
  rename_i henc
  split at h
  swap
  · cases h
  rename_i hid
  split at h
  · cases h
  rename_i hok
  split at h
  · cases h
  rename_i hfree
  split at h
  · cases h
  rename_i hindex
  rw [dif_neg henc, dif_pos hid, dif_neg hok, dif_neg (hany _ hfree), dif_neg]
  · exact ⟨_, rfl⟩
  · rw [hext.rowHashUnique] at hindex
    rw [Bool.and_eq_true] at hindex ⊢
    exact fun h ↦ hany "rowHash" (fun hno ↦ hindex ⟨h.1, hno⟩) h.2

/-- An upsert that failed inserts nothing later on either, when documents have been added. -/
theorem not_inserted_of_upsert_error {c'' : Collection} {exc : PyErr}
    (h : c.upsert id set = .error exc) (hext : Extends c c') :
    c'.upsert id set ≠ .ok (c'', true) := by
  intro hok
  obtain ⟨hno, -⟩ | ⟨-, hnone, doc, hdoc, hinsert⟩ := upsert_cases hok
  · cases hno
  obtain ⟨c₁, hc₁⟩ := exists_insert_of_extends hext hinsert
  rw [upsert] at h hok
  split at hok
  swap
  · cases hok
  rename_i hencodable
  obtain ⟨_, hcheck, -⟩ := bind_eq_ok.1 hok
  rw [if_pos hencodable, hcheck, hdoc] at h
  have hfind : c.findById id.toStored = none := by
    cases hfind : c.findById id.toStored with
    | none => rfl
    | some e =>
      obtain ⟨he, hid⟩ := findById_eq_some.1 hfind
      exact absurd hid (hnone e (hext.mem he))
  rw [hfind] at h
  obtain h | ⟨_, -, h⟩ := bind_eq_error.1 h
  · cases h
  obtain h | ⟨_, hd, h⟩ := bind_eq_error.1 h
  · cases h
  cases hd
  obtain h | ⟨_, -, h⟩ := bind_eq_error.1 h
  · cases hc₁.symm.trans h
  · cases h

/-- What is upserted is what will be read back. -/
theorem stored_upsertDoc (h : upsertDoc id set = .ok d) (hset : set.encodable = true)
    (hid : id.encodable = true) : d.Stored := by
  refine stored_applySet (upsertDoc_eq_ok h).1 (Doc.stored_toStored hset) fun k v hv ↦ ?_
  rw [Doc.getElem?_insert] at hv
  split at hv
  · rename_i hk
    cases hv
    exact ⟨hk ▸ (by rw [noZero]; decide), Value.isStored_toStored id hid⟩
  · simp at hv

/-- An upsert of a document that can be made inserts it, where its `_id` is free and no index says
no. -/
theorem exists_upsert (h : upsertDoc id set = .ok d) (hset : set.encodable = true)
    (hid : id.encodable = true) (hok : Doc.idOk id.toStored = true)
    (hfree : ∀ e ∈ c.docs, e["_id"]? ≠ some id.toStored) (hindex : c.refuses d = false) :
    ∃ c', c.upsert id set = .ok (c', true) := by
  obtain ⟨happly, hget⟩ := upsertDoc_eq_ok h
  have hnone : c.findById id.toStored = none := by
    cases hfind : c.findById id.toStored with
    | none => rfl
    | some e =>
      obtain ⟨he, heid⟩ := findById_eq_some.1 hfind
      exact absurd heid (hfree e he)
  obtain ⟨c', hc'⟩ := exists_insert_of_stored (c := c) (stored_upsertDoc h hset hid)
    (by rw [hget, Option.isSome_some]) (by rw [hget, Option.getD_some, hok])
    (fun e he ↦ by
      rw [Doc.clash, hget, Bool.and_eq_false_iff, beq_eq_false_iff_ne]
      exact .inr (hfree e he)) hindex
  refine ⟨c', ?_⟩
  rw [upsert, if_pos (by rw [hset, hid, Bool.and_self]), checkPaths_of_applySet happly, hnone, h]
  exact bind_eq_ok.2 ⟨(), rfl, bind_eq_ok.2 ⟨d, rfl, bind_eq_ok.2 ⟨c', hc', rfl⟩⟩⟩

/-- A stored document of plain names is made out of its `_id` and its other fields again. -/
theorem upsertDoc_of_plain (hstored : d.Stored) (hid : d["_id"]? = some id)
    (hplain : ∀ k ∈ d, PlainKey k) : upsertDoc id (d.erase "_id") = .ok d := by
  have hkeys : ∀ k ∈ Doc.toStored (d.erase "_id"), PlainKey k := by
    intro k hk
    rw [Doc.mem_toStored, Std.ExtTreeMap.mem_erase] at hk
    exact hplain k hk.2
  have hkeep : ∀ {k : String} {v : Value}, d[k]? = some v → v.toStored = v := fun hv ↦
    Value.toStored_of_isStored _ (hstored _ _ hv).2
  have hdoc : (∅ : Doc).insert "_id" id.toStored ∪ Doc.toStored (d.erase "_id") = d := by
    refine Std.ExtTreeMap.ext_getElem? fun k ↦ ?_
    rw [Doc.getElem?_update, Doc.getElem?_toStored, Doc.getElem?_erase, Doc.getElem?_insert]
    by_cases hk : k = "_id"
    · rw [if_pos hk, if_pos hk, Option.map_none, Option.none_or, hk, hid, hkeep hid]
    · rw [if_neg hk, if_neg hk]
      cases hv : d[k]? with
      | none => simp
      | some v => rw [Option.map_some, hkeep hv, Option.some_or]
  rw [upsertDoc, applySet_of_plain hkeys, hdoc]
  refine if_pos ?_
  rw [hid, hkeep hid]

end Collection

/-- `collection.update_one({"_id": id}, {"$setOnInsert": fields}, upsert=True)`, with whether there
is an `upserted_id`. -/
def setOnInsert (id : Value) (fields : Doc) : Db Bool := do
  let (c, inserted) ← ofExcept ((← get).upsert id fields)
  set c
  return inserted

@[simp] theorem wp_setOnInsert {E : PyErr → Collection → Prop} {c : Collection}
    {Q : Bool → Collection → Prop} {id : Value} {fields : Doc} :
    wp (setOnInsert id fields) Q E c ↔
      (∀ c' inserted, c.upsert id fields = .ok (c', inserted) → Q inserted c') ∧
        ∀ e, c.upsert id fields = .error e → E e c := by
  simp only [setOnInsert, wp_bind, wp_get, wp_ofExcept, wp_set, wp_pure, Prod.forall]

/-- `collection.create_indexes(...)`, as far as the unique index goes. -/
def createIndexes : Db Unit := do
  set (← ofExcept ((← get).createIndexes))

@[simp] theorem wp_createIndexes {E : PyErr → Collection → Prop} {c : Collection}
    {Q : Unit → Collection → Prop} :
    wp createIndexes Q E c ↔
      (∀ c', c.createIndexes = .ok c' → Q () c') ∧ ∀ e, c.createIndexes = .error e → E e c := by
  simp only [createIndexes, wp_bind, wp_get, wp_ofExcept, wp_set]

namespace Collection

variable {c c' : Collection}

/-- Creating the indexes leaves the documents as they are. -/
theorem createIndexes_eq_ok (h : c.createIndexes = .ok c') :
    c'.docs = c.docs ∧ c'.rowHashUnique = true ∧ c'.fullName = c.fullName := by
  rw [createIndexes] at h
  split at h
  · cases h
    exact ⟨rfl, rfl, rfl⟩
  · cases h

/-- The indexes need to be created once only. -/
theorem createIndexes_of_unique (h : c.rowHashUnique = true) : c.createIndexes = .ok c := by
  rw [createIndexes, dif_pos (c.hashes_distinct h)]
  exact congrArg Except.ok (Collection.ext rfl h.symm rfl)

/-- It is the documents that decide whether the unique index can be created. -/
theorem exists_createIndexes
    (h : c.docs.Pairwise fun d e ↦ Doc.clash "rowHash" d e = false) :
    ∃ c', c.createIndexes = .ok c' := by
  rw [createIndexes, dif_pos h]
  exact ⟨_, rfl⟩

theorem not_pairwise_of_createIndexes_error {exc : PyErr} (h : c.createIndexes = .error exc) :
    ¬ c.docs.Pairwise fun d e ↦ Doc.clash "rowHash" d e = false := by
  intro hdistinct
  obtain ⟨c', hc'⟩ := exists_createIndexes hdistinct
  cases hc'.symm.trans h

end Collection

variable {c : Collection}

/-- Documents that a unique index allows. -/
def Indexable (docs : List Doc) : Prop :=
  docs.Pairwise fun d e ↦ Doc.clash "rowHash" d e = false

theorem wp_createIndexes_iff {Q : Unit → Collection → Prop} {E : PyErr → Collection → Prop}
    (hok : ∀ c', c'.docs = c.docs → c'.rowHashUnique = true → c'.fullName = c.fullName →
      Indexable c.docs → Q () c')
    (herror : ¬ Indexable c.docs → ∀ exc, E exc c) : wp createIndexes Q E c := by
  rw [wp_createIndexes]
  refine ⟨fun c' hc' ↦ ?_, fun exc hexc ↦ ?_⟩
  · obtain ⟨hdocs, hunique, hname⟩ := Collection.createIndexes_eq_ok hc'
    exact hok c' hdocs hunique hname (hdocs ▸ c'.hashes_distinct hunique)
  · exact herror (Collection.not_pairwise_of_createIndexes_error hexc) exc

end Ollog

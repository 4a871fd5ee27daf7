import Ollog.Bson.Update
import Ollog.Hashing
import Mathlib.Data.List.Pairwise

/-!
# One collection of the database

A `Collection` is what one `<username>_qsos` collection holds: its documents in the order in which
they were inserted, and whether the unique index on `rowHash` has been created.  That `_id` is
present and unique, and that `rowHash` is unique where the index exists, is part of the type: the
server refuses the write otherwise, and so do `insert` and `update`.

The texts of the server's errors are kept where the program looks for the name of an index or of a
field in them.  Ids are compared as they are written, so `1` and `1.0` are different ids.
-/

set_option autoImplicit false

namespace Ollog

open Effects

/-! ## Queries -/

namespace Doc

/-- A query for the values of a field: an array matches when it, or one of its elements, does. -/
def fieldMatches (d : Doc) (k : String) (p : Value → Bool) : Bool :=
  match d[k]? with
  | none => false
  | some (.list xs) => p (.list xs) || xs.any p
  | some v => p v

/-- The query `{k: v}`: a missing field matches `null`. -/
def fieldIs (d : Doc) (k : String) (v : Value) : Bool :=
  d.fieldMatches k (· == v) || (v == .null && d[k]?.isNone)

/-- Two documents that a unique sparse index on a field does not allow together. -/
def clash (k : String) (d e : Doc) : Bool := d[k]?.isSome && d[k]? == e[k]?

theorem clash_comm (k : String) (d e : Doc) : clash k d e = clash k e d := by
  rw [clash, clash, Bool.eq_iff_iff]
  simp only [Bool.and_eq_true, beq_iff_eq]
  constructor
  · rintro ⟨h, heq⟩
    exact ⟨heq ▸ h, heq.symm⟩
  · rintro ⟨h, heq⟩
    exact ⟨heq ▸ h, heq.symm⟩

instance (k : String) : Std.Symm fun d e : Doc ↦ clash k d e = false :=
  ⟨fun d e h ↦ by rwa [clash_comm]⟩

/-- Whether the BSON encoder accepts a document. -/
def encodable (d : Doc) : Bool := Value.encodableFields d.toList

theorem encodable_iff {d : Doc} : d.encodable = true ↔ ∀ (k : String) (v : Value),
    d[k]? = some v → k.toList.contains (Char.ofNat 0) = false ∧ v.encodable = true := by
  have hall : ∀ ps : List (String × Value), Value.encodableFields ps = true ↔
      ∀ p ∈ ps, p.1.toList.contains (Char.ofNat 0) = false ∧ p.2.encodable = true := by
    intro ps
    induction ps with
    | nil => simp [Value.encodableFields]
    | cons p ps ih =>
      rw [Value.encodableFields, Bool.and_eq_true, ih, List.forall_mem_cons, Bool.and_eq_true,
        Bool.not_eq_true']
  rw [encodable, hall]
  constructor
  · intro h k v hv
    exact h (k, v) (Std.ExtTreeMap.mem_toList_iff_getElem?_eq_some.2 hv)
  · intro h p hp
    exact h p.1 p.2 (Std.ExtTreeMap.mem_toList_iff_getElem?_eq_some.1 hp)

/-- What is read back of an encodable document. -/
theorem stored_toStored {d : Doc} (h : d.encodable = true) : (toStored d).Stored := by
  intro k v hv
  rw [getElem?_toStored] at hv
  obtain ⟨w, hw, rfl⟩ := Option.map_eq_some_iff.1 hv
  obtain ⟨hzero, hwenc⟩ := encodable_iff.1 h k w hw
  exact ⟨hzero, Value.isStored_toStored w hwenc⟩

theorem Stored.encodable {d : Doc} (h : d.Stored) : d.encodable = true :=
  encodable_iff.2 fun k v hv ↦ ⟨(h k v hv).1, Value.encodable_of_isStored v (h k v hv).2⟩

theorem Stored.toStored_eq {d : Doc} (h : d.Stored) : toStored d = d := by
  refine Std.ExtTreeMap.ext_getElem? fun k ↦ ?_
  rw [getElem?_toStored]
  cases hv : d[k]? with
  | none => rfl
  | some v => rw [Option.map_some, Value.toStored_of_isStored v (h k v hv).2]

/-- Whether the server accepts a value as an `_id`. -/
def idOk : Value → Bool
  | .list _ => false
  | .dict fields => fields.all fun p ↦ p.1.toList.head? != some '$'
  | .dbRef _ _ database extra =>
    database.isNone && extra.all fun p ↦ p.1.toList.head? != some '$'
  | _ => true

end Doc

/-! ## Collections -/

/-- A collection of documents. -/
@[ext]
structure Collection where
  /-- `<database>.<username>_qsos`, which the server's error messages mention. -/
  fullName : String
  /-- Whether the index `row_hash_unique_idx` has been created. -/
  rowHashUnique : Bool
  /-- The documents, oldest first. -/
  docs : List Doc
  /-- Every document is what is read back of it. -/
  docs_stored : ∀ d ∈ docs, d.Stored
  /-- Every document has an `_id`. -/
  ids_present : ∀ d ∈ docs, d["_id"]?.isSome = true
  /-- Every `_id` is of a type the server accepts. -/
  ids_ok : ∀ d ∈ docs, Doc.idOk (d["_id"]?.getD .null) = true
  /-- No two documents have the same `_id`. -/
  ids_distinct : docs.Pairwise fun d e ↦ Doc.clash "_id" d e = false
  /-- No two documents have the same `rowHash`, if the index says so. -/
  hashes_distinct : rowHashUnique = true →
    docs.Pairwise fun d e ↦ Doc.clash "rowHash" d e = false

namespace Collection

/-- A collection nothing has been written to. -/
def empty (fullName : String) (rowHashUnique : Bool) : Collection where
  fullName := fullName
  rowHashUnique := rowHashUnique
  docs := []
  docs_stored := by simp
  ids_present := by simp
  ids_ok := by simp
  ids_distinct := List.Pairwise.nil
  hashes_distinct _ := List.Pairwise.nil

/-- `find_one({"_id": id})`. -/
def findById (c : Collection) (id : Value) : Option Doc := c.docs.find? fun d ↦ d["_id"]? == some id

mutual
/-- A value as the server writes it in an error message. -/
def shellText : Value → String
  | .null => "null"
  | .bool b => if b then "true" else "false"
  | .int n => toString n
  | .float t => t
  | .str s => String.ofList (Value.jsonString s)
  | .oid o => "ObjectId('" ++ o.str ++ "')"
  | .datetime dt => "new Date(" ++ toString (dt.utc / 1000) ++ ")"
  | .list xs => "[ " ++ ", ".intercalate (shellItems xs) ++ " ]"
  | .dict fields => "\x7b " ++ ", ".intercalate (shellFields fields) ++ " \x7d"
  | .dbRef collection id database extra =>
    "\x7b " ++ ", ".intercalate (("$ref: " ++ String.ofList (Value.jsonString collection)) ::
      ("$id: " ++ shellText id) ::
      database.toList.map (fun name ↦ "$db: " ++ String.ofList (Value.jsonString name)) ++
      shellFields extra) ++ " \x7d"

/-- The elements of an array in an error message. -/
def shellItems : List Value → List String
  | [] => []
  | x :: xs => shellText x :: shellItems xs

/-- The fields of an embedded document in an error message. -/
def shellFields : List (String × Value) → List String
  | [] => []
  | (k, v) :: ps => (k ++ ": " ++ shellText v) :: shellFields ps
end

/-- The error for a document that violates a unique index. -/
def duplicateKey (c : Collection) (index field : String) (d : Doc) : PyErr :=
  .duplicateKey ("E11000 duplicate key error collection: " ++ c.fullName ++ " index: " ++ index ++
    " dup key: \x7b " ++ field ++ ": " ++ shellText (d[field]?.getD .null) ++ " \x7d")

/-- The error of the BSON encoder. -/
def encodeError : PyErr := .invalidDocument "Invalid document: cannot encode object"

theorem forall_mem_append_singleton {P : Doc → Prop} {docs : List Doc} {d : Doc}
    (h : ∀ e ∈ docs, P e) (hd : P d) : ∀ e ∈ docs ++ [d], P e := by
  intro e he
  rcases List.mem_append.1 he with he | he
  · exact h e he
  · rwa [List.mem_singleton.1 he]

theorem pairwise_append_singleton {k : String} {docs : List Doc} {d : Doc}
    (h : docs.Pairwise fun d e ↦ Doc.clash k d e = false)
    (hd : docs.any (fun e ↦ Doc.clash k e d) = false) :
    (docs ++ [d]).Pairwise fun d e ↦ Doc.clash k d e = false := by
  rw [List.pairwise_append]
  refine ⟨h, List.pairwise_singleton _ _, fun e he f hf ↦ ?_⟩
  rw [List.mem_singleton.1 hf]
  simpa using List.any_eq_false.1 hd e he

/-- `insert_one`.  The driver adds a missing `_id`; every document of the program has one. -/
def insert (c : Collection) (doc : Doc) : Except PyErr Collection :=
  let stored := Doc.toStored doc
  if henc : doc.encodable = false then .error encodeError
  else if hid : stored["_id"]?.isSome = true then
    if hok : Doc.idOk (stored["_id"]?.getD .null) = false then
      .error (.writeError "The '_id' value cannot be of this type")
    else if h : c.docs.any (fun e ↦ Doc.clash "_id" e stored) = true then
      .error (c.duplicateKey "_id_" "_id" stored)
    else if h' : (c.rowHashUnique && c.docs.any fun e ↦ Doc.clash "rowHash" e stored) = true then
      .error (c.duplicateKey "row_hash_unique_idx" "rowHash" stored)
    else .ok {
      c with
      docs := c.docs ++ [stored]
      docs_stored := forall_mem_append_singleton c.docs_stored
        (Doc.stored_toStored (by simpa using henc))
      ids_present := forall_mem_append_singleton c.ids_present hid
      ids_ok := forall_mem_append_singleton c.ids_ok (by simpa using hok)
      ids_distinct := pairwise_append_singleton c.ids_distinct (by simpa using h)
      hashes_distinct := fun hu ↦ pairwise_append_singleton (c.hashes_distinct hu) (by
        rw [hu, Bool.true_and] at h'
        simpa using h') }
  else .error (.writeError "missing _id")

/-- The documents with the one of that `_id` replaced. -/
def replaceById (docs : List Doc) (id : Value) (new : Doc) : List Doc :=
  docs.map fun d ↦ if d["_id"]? = some id then new else d

theorem mem_replaceById {docs : List Doc} {id : Value} {new d : Doc}
    (h : d ∈ replaceById docs id new) : d = new ∨ (d ∈ docs ∧ d["_id"]? ≠ some id) := by
  obtain ⟨e, he, heq⟩ := List.mem_map.1 h
  split at heq
  · exact .inl heq.symm
  · rename_i hne
    exact .inr ⟨heq ▸ he, heq ▸ hne⟩

theorem forall_mem_replaceById {P : Doc → Prop} {docs : List Doc} {id : Value} {new : Doc}
    (h : ∀ e ∈ docs, P e) (hnew : P new) : ∀ e ∈ replaceById docs id new, P e := by
  intro e he
  obtain rfl | ⟨he, -⟩ := mem_replaceById he
  · exact hnew
  · exact h e he

theorem pairwise_replaceById {k : String} {docs : List Doc} {id : Value} {new : Doc}
    (hids : docs.Pairwise fun d e ↦ Doc.clash "_id" d e = false)
    (h : docs.Pairwise fun d e ↦ Doc.clash k d e = false)
    (hnew : ∀ e ∈ docs, e["_id"]? ≠ some id → Doc.clash k new e = false) :
    (replaceById docs id new).Pairwise fun d e ↦ Doc.clash k d e = false := by
  rw [replaceById, List.pairwise_map]
  refine (hids.and h).imp_of_mem fun {d e} hd he ⟨hid, hk⟩ ↦ ?_
  split <;> rename_i hdid <;> split <;> rename_i heid
  · simp [Doc.clash, hdid, heid] at hid
  · exact hnew e he heid
  · rw [Doc.clash_comm]
    exact hnew d hd hdid
  · exact hk

/-- Put `new` in the place of the document of that `_id`. -/
def replace (c : Collection) {id : Value} {old new : Doc} (hold : c.findById id = some old)
    (hnew : new.Stored) : Except PyErr Collection :=
  if hid : new["_id"]? = some id then
    if h : c.rowHashUnique = true →
        ∀ e ∈ c.docs, e["_id"]? ≠ some id → Doc.clash "rowHash" new e = false then
      .ok {
        c with
        docs := replaceById c.docs id new
        docs_stored := forall_mem_replaceById c.docs_stored hnew
        ids_present := forall_mem_replaceById c.ids_present (by rw [hid, Option.isSome_some])
        ids_ok := forall_mem_replaceById c.ids_ok (by
          have hsame : old["_id"]? = some id := by simpa using List.find?_some hold
          rw [hid, ← hsame]
          exact c.ids_ok old (List.mem_of_find?_eq_some hold))
        ids_distinct := pairwise_replaceById c.ids_distinct c.ids_distinct
          fun e he hne ↦ by simp [Doc.clash, hid, Ne.symm hne]
        hashes_distinct := fun hu ↦
          pairwise_replaceById c.ids_distinct (c.hashes_distinct hu) (h hu) }
    else .error (c.duplicateKey "row_hash_unique_idx" "rowHash" new)
  else .error (.writeError
    "Performing an update on the path '_id' would modify the immutable field '_id'")

theorem stored_set {c : Collection} {id : Value} {set old new : Doc}
    (henc : ¬ set.encodable = false) (hold : c.findById id = some old)
    (hnew : applySet (Doc.toStored set) old = .ok new) : new.Stored :=
  stored_applySet hnew (Doc.stored_toStored (by simpa using henc))
    (c.docs_stored old (List.mem_of_find?_eq_some hold))

/-- `update_one({"_id": id}, {"$set": set})`. -/
def update (c : Collection) (id : Value) (set : Doc) : Except PyErr Collection :=
  if henc : set.encodable = false then .error encodeError
  else match hold : c.findById id with
  | none => .ok c
  | some old => match hnew : applySet (Doc.toStored set) old with
    | .error e => .error e
    | .ok _ => c.replace hold (stored_set henc hold hnew)

/-- `delete_many(query)`. -/
def deleteMany (c : Collection) (query : Doc → Bool) : Collection where
  fullName := c.fullName
  rowHashUnique := c.rowHashUnique
  docs := c.docs.filter fun d ↦ !query d
  docs_stored d hd := c.docs_stored d (List.mem_filter.1 hd).1
  ids_present d hd := c.ids_present d (List.mem_filter.1 hd).1
  ids_ok d hd := c.ids_ok d (List.mem_filter.1 hd).1
  ids_distinct := c.ids_distinct.filter _
  hashes_distinct hu := (c.hashes_distinct hu).filter _

/-- `create_indexes`, as far as the unique index goes. -/
def createIndexes (c : Collection) : Except PyErr Collection :=
  if h : c.docs.Pairwise fun d e ↦ Doc.clash "rowHash" d e = false then
    .ok { c with rowHashUnique := true, hashes_distinct := fun _ ↦ h }
  else .error (c.duplicateKey "row_hash_unique_idx" "rowHash" ∅)

/-! ## What the writes do -/

/-- The document of a given `_id` is the one `findById` returns. -/
theorem findById_eq_some {c : Collection} {id : Value} {d : Doc} :
    c.findById id = some d ↔ d ∈ c.docs ∧ d["_id"]? = some id := by
  rw [findById]
  constructor
  · intro h
    exact ⟨List.mem_of_find?_eq_some h, by simpa using List.find?_some h⟩
  · rintro ⟨hd, hid⟩
    cases hf : c.docs.find? fun d ↦ d["_id"]? == some id with
    | none =>
      rw [List.find?_eq_none] at hf
      exact absurd (by simp [hid]) (hf d hd)
    | some e =>
      have heid : e["_id"]? = some id := by simpa using List.find?_some hf
      by_contra hne
      have hclash := c.ids_distinct.forall hd (List.mem_of_find?_eq_some hf)
        fun heq ↦ hne (by rw [heq])
      simp [Doc.clash, hid, heid] at hclash

/-- Every document of a collection has its `_id`. -/
theorem id_get {c : Collection} {d : Doc} (hd : d ∈ c.docs) :
    d["_id"]? = some (Doc.get d "_id" .null) := by
  obtain ⟨id, hid⟩ := Option.isSome_iff_exists.1 (c.ids_present d hd)
  rw [Doc.get, hid, Option.getD_some]

/-- Two documents of a collection with the same `_id` are the same document. -/
theorem eq_of_id_eq {c : Collection} {d e : Doc} (hd : d ∈ c.docs) (he : e ∈ c.docs)
    (h : d["_id"]? = e["_id"]?) : d = e := by
  obtain ⟨id, hid⟩ := Option.isSome_iff_exists.1 (c.ids_present d hd)
  have h₁ := findById_eq_some.2 ⟨hd, hid⟩
  rw [findById_eq_some.2 ⟨he, by rw [← h, hid]⟩] at h₁
  exact (Option.some.inj h₁).symm

/-- An insert that succeeds appends what will be read back. -/
theorem insert_eq_ok {c c' : Collection} {doc : Doc} (h : c.insert doc = .ok c') :
    c'.docs = c.docs ++ [Doc.toStored doc] ∧ c'.rowHashUnique = c.rowHashUnique := by
  unfold insert at h
  dsimp only at h
  split at h
  · cases h
  split at h
  · split at h
    · cases h
    split at h
    · cases h
    split at h
    · cases h
    · cases h
      exact ⟨rfl, rfl⟩
  · cases h

theorem insert_of_not_encodable {c : Collection} {doc : Doc} (henc : doc.encodable = false) :
    c.insert doc = .error encodeError := by
  rw [insert]
  exact dif_pos henc

/-- Whether the unique index keeps a document out. -/
def refuses (c : Collection) (doc : Doc) : Bool :=
  c.rowHashUnique && c.docs.any fun e ↦ Doc.clash "rowHash" e (Doc.toStored doc)

/-- **Inserting a document with a fresh `_id`** succeeds unless the unique index keeps it out. -/
theorem insert_of_fresh {c : Collection} {doc : Doc} {oid : ObjectId}
    (henc : doc.encodable = true) (hid : doc["_id"]? = some (.oid oid))
    (hfree : ∀ e ∈ c.docs, e["_id"]? ≠ some (.oid oid)) :
    (c.refuses doc = false ∧ ∃ c', c.insert doc = .ok c') ∨
      (c.refuses doc = true ∧ c.insert doc =
        .error (c.duplicateKey "row_hash_unique_idx" "rowHash" (Doc.toStored doc))) := by
  have hstored : (Doc.toStored doc)["_id"]? = some (.oid oid) := by
    rw [Doc.getElem?_toStored, hid, Option.map_some, Value.toStored]
  have hclash : ∀ e ∈ c.docs, Doc.clash "_id" e (Doc.toStored doc) = false := by
    intro e he
    rw [Doc.clash, hstored, Bool.and_eq_false_iff, beq_eq_false_iff_ne]
    exact .inr (hfree e he)
  have hno : ¬ (c.docs.any fun e ↦ Doc.clash "_id" e (Doc.toStored doc)) = true := by
    simpa using hclash
  rw [insert]
  simp only [henc, hstored, Option.isSome_some, Option.getD_some, Doc.idOk, Bool.true_eq_false,
    dite_false, dite_true, dif_neg hno]
  cases hrefuse : c.refuses doc with
  | true => exact .inr ⟨rfl, dif_pos hrefuse⟩
  | false => exact .inl ⟨rfl, _, dif_neg (by rw [Bool.not_eq_true]; exact hrefuse)⟩

/-- What is inserted was not refused. -/
theorem refuses_of_insert {c c' : Collection} {doc : Doc} (h : c.insert doc = .ok c') :
    c.refuses doc = false := by
  unfold insert at h
  dsimp only at h
  split at h
  · cases h
  split at h
  · split at h
    · cases h
    split at h
    · cases h
    split at h
    · cases h
    · rename_i hno
      exact Bool.not_eq_true _ ▸ hno
  · cases h

/-- The unique index refuses a document with the hash of one that is there. -/
theorem refuses_of_mem {c : Collection} {d doc : Doc} (hunique : c.rowHashUnique = true)
    (hd : d ∈ c.docs) (hclash : Doc.clash "rowHash" d (Doc.toStored doc) = true) :
    c.refuses doc = true := by
  rw [refuses, hunique, Bool.true_and, List.any_eq_true]
  exact ⟨d, hd, hclash⟩

/-- All the unique index looks at is the hash. -/
theorem refuses_congr {c : Collection} {doc doc' : Doc} (h : doc["rowHash"]? = doc'["rowHash"]?) :
    c.refuses doc = c.refuses doc' := by
  simp only [refuses, Doc.clash, Doc.getElem?_toStored, h]

/-- A document that was stored once can be stored again where its `_id` is free and no index says
no. -/
theorem exists_insert_of_stored {c : Collection} {d : Doc} (hd : d.Stored)
    (hid : d["_id"]?.isSome = true) (hok : Doc.idOk (d["_id"]?.getD .null) = true)
    (hfree : ∀ e ∈ c.docs, Doc.clash "_id" e d = false) (hindex : c.refuses d = false) :
    ∃ c', c.insert d = .ok c' := by
  rw [refuses, hd.toStored_eq] at hindex
  rw [insert]
  simp only [hd.toStored_eq, hd.encodable, hindex, hid, hok, Bool.true_eq_false,
    Bool.false_eq_true, dite_true, dite_false]
  rw [dif_neg (by simpa using hfree)]
  exact ⟨_, rfl⟩

/-- `c'` is `c` with documents added behind. -/
structure Extends (c c' : Collection) : Prop where
  docs : c.docs <+: c'.docs
  rowHashUnique : c'.rowHashUnique = c.rowHashUnique

theorem Extends.refl (c : Collection) : Extends c c := ⟨List.prefix_rfl, rfl⟩

theorem Extends.trans {c c' c'' : Collection} (h : Extends c c') (h' : Extends c' c'') :
    Extends c c'' :=
  ⟨h.docs.trans h'.docs, h'.rowHashUnique.trans h.rowHashUnique⟩

theorem Extends.mem {c c' : Collection} (h : Extends c c') {d : Doc} (hd : d ∈ c.docs) :
    d ∈ c'.docs := h.docs.subset hd

/-- What was refused still is. -/
theorem Extends.refuses {c c' : Collection} (h : Extends c c') {doc : Doc}
    (hrefuse : c.refuses doc = true) : c'.refuses doc = true := by
  rw [Collection.refuses, Bool.and_eq_true, List.any_eq_true] at hrefuse
  obtain ⟨hunique, d, hd, hclash⟩ := hrefuse
  exact refuses_of_mem (h.rowHashUnique.trans hunique) (h.mem hd) hclash

theorem extends_of_insert {c c' : Collection} {doc : Doc} (h : c.insert doc = .ok c') :
    Extends c c' := by
  obtain ⟨hdocs, hunique⟩ := insert_eq_ok h
  exact ⟨hdocs ▸ List.prefix_append .., hunique⟩

/-- An update that succeeds replaces the document of that `_id`, if there is one. -/
theorem update_eq_ok {c c' : Collection} {id : Value} {set : Doc}
    (h : c.update id set = .ok c') :
    c' = c ∨ ∃ old new, old ∈ c.docs ∧ old["_id"]? = some id ∧
      applySet (Doc.toStored set) old = .ok new ∧ new["_id"]? = some id ∧
      c'.docs = replaceById c.docs id new ∧ c'.rowHashUnique = c.rowHashUnique ∧
      c'.fullName = c.fullName := by
  rw [update] at h
  split at h
  · cases h
  split at h
  · cases h
    exact .inl rfl
  rename_i old hold
  obtain ⟨hmem, hid⟩ := findById_eq_some.1 hold
  split at h
  · cases h
  rename_i new hnew
  rw [replace] at h
  split at h
  · rename_i hnid
    split at h
    · cases h
      exact .inr ⟨old, new, hmem, hid, hnew, hnid, rfl, rfl, rfl⟩
    · cases h
  · cases h

/-- An update that changes nothing in the document changes nothing in the collection. -/
theorem update_eq_self {c c' : Collection} {id : Value} {set d : Doc}
    (h : c.update id set = .ok c') (hd : d ∈ c.docs) (hid : d["_id"]? = some id)
    (hset : applySet (Doc.toStored set) d = .ok d) : c' = c := by
  obtain hc | ⟨old, new, hold, hoid, hnew, -, hdocs, hunique, hname⟩ := update_eq_ok h
  · exact hc
  obtain rfl := eq_of_id_eq hold hd (hoid.trans hid.symm)
  obtain rfl := Except.ok.inj (hset.symm.trans hnew)
  refine Collection.ext hname hunique (hdocs.trans ?_)
  refine (List.map_congr_left fun e he ↦ ?_).trans c.docs.map_id'
  split
  · rename_i heid
    exact eq_of_id_eq hd he (hid.trans heid.symm)
  · rfl

/-- An update of plain fields other than `_id` succeeds exactly when it does not violate the
unique index, and merges the fields into the document. -/
theorem update_of_plain {c : Collection} {id : Value} {set old : Doc}
    (henc : set.encodable = true) (hplain : ∀ key ∈ set, PlainKey key) (hset : "_id" ∉ set)
    (hold : old ∈ c.docs) (hid : old["_id"]? = some id) :
    ((∃ c', c.update id set = .ok c') ↔
      (c.rowHashUnique = true → ∀ e ∈ c.docs, e ≠ old →
        Doc.clash "rowHash" (old ∪ Doc.toStored set) e = false)) ∧
    ∀ c', c.update id set = .ok c' →
      c'.docs = replaceById c.docs id (old ∪ Doc.toStored set) := by
  have hplain' : ∀ key ∈ Doc.toStored set, PlainKey key := fun key hkey ↦
    hplain key (Doc.mem_toStored.1 hkey)
  have hget : (old ∪ Doc.toStored set)["_id"]? = some id := by
    rw [Doc.getElem?_update, Std.ExtTreeMap.getElem?_eq_none (mt Doc.mem_toStored.1 hset),
      Option.none_or, hid]
  have hother : ∀ e ∈ c.docs, (e["_id"]? ≠ some id ↔ e ≠ old) := fun e he ↦
    ⟨fun h heq ↦ h (heq ▸ hid), fun h hid' ↦ h (eq_of_id_eq he hold (hid'.trans hid.symm))⟩
  have hfind := findById_eq_some.2 ⟨hold, hid⟩
  have hnew := applySet_of_plain hplain' old
  have hupdate : c.update id set =
      c.replace hfind (stored_set (by rw [henc]; decide) hfind hnew) := by
    rw [update]
    split
    · rename_i h
      exact absurd (henc.symm.trans h) (by decide)
    split
    · rename_i h
      exact absurd (hfind.symm.trans h) (by simp)
    rename_i old' hold'
    obtain rfl := Option.some.inj (hfind.symm.trans hold')
    split
    · rename_i h
      exact absurd (hnew.symm.trans h) (by simp)
    · rename_i new h
      obtain rfl := Except.ok.inj (hnew.symm.trans h)
      rfl
  rw [hupdate, replace, dif_pos hget]
  by_cases h : c.rowHashUnique = true → ∀ e ∈ c.docs, e ≠ old →
      Doc.clash "rowHash" (old ∪ Doc.toStored set) e = false
  · have h' : c.rowHashUnique = true → ∀ e ∈ c.docs, e["_id"]? ≠ some id →
        Doc.clash "rowHash" (old ∪ Doc.toStored set) e = false :=
      fun hu e he hne ↦ h hu e he ((hother e he).1 hne)
    rw [dif_pos h']
    refine ⟨⟨fun _ ↦ h, fun _ ↦ ⟨_, rfl⟩⟩, fun c' hc' ↦ ?_⟩
    rw [← Except.ok.inj hc']
  · rw [dif_neg fun h' ↦ h fun hu e he hne ↦ h' hu e he ((hother e he).2 hne)]
    exact ⟨⟨fun ⟨_, hc⟩ ↦ (nomatch hc), fun h' ↦ absurd h' h⟩, fun _ hc ↦ (nomatch hc)⟩

end Collection

/-! ## The driver's calls -/

/-- A computation on one collection. -/
abbrev Db := EStateM PyErr Collection

/-- `collection.find_one(query)`, in the order of insertion. -/
def findOne (query : Doc → Bool) : Db (Option Doc) := do
  return (← get).docs.find? query

/-- `collection.find(query).to_list()`. -/
def findAll (query : Doc → Bool) : Db (List Doc) := do
  return (← get).docs.filter query

/-- `collection.insert_one(doc)`. -/
def insertOne (doc : Doc) : Db Unit := do
  set (← ofExcept ((← get).insert doc))

/-- `collection.update_one({"_id": id}, {"$set": set})`. -/
def updateOne (id : Value) (fields : Doc) : Db Unit := do
  set (← ofExcept ((← get).update id fields))

/-- `collection.delete_many(query)`, with `deleted_count`. -/
def deleteMany (query : Doc → Bool) : Db Nat := do
  let c ← get
  set (c.deleteMany query)
  return (c.docs.filter query).length

theorem updateOne_eq_ok {id : Value} {fields : Doc} {c c' : Collection} :
    updateOne id fields c = .ok () c' ↔ c.update id fields = .ok c' := by
  have h : updateOne id fields c =
      EStateM.bind (ofExcept (c.update id fields)) set c := rfl
  rw [h]
  cases c.update id fields with
  | error e => exact ⟨fun h ↦ (nomatch h), fun h ↦ (nomatch h)⟩
  | ok d => exact ⟨fun h ↦ by cases h; rfl, fun h ↦ by cases h; rfl⟩

section Wp

variable {E : PyErr → Collection → Prop} {c : Collection}

@[simp] theorem wp_findOne {Q : Option Doc → Collection → Prop} {query : Doc → Bool} :
    wp (findOne query) Q E c ↔ Q (c.docs.find? query) c := Iff.rfl

@[simp] theorem wp_findAll {Q : List Doc → Collection → Prop} {query : Doc → Bool} :
    wp (findAll query) Q E c ↔ Q (c.docs.filter query) c := Iff.rfl

@[simp] theorem wp_insertOne {Q : Unit → Collection → Prop} {doc : Doc} :
    wp (insertOne doc) Q E c ↔
      (∀ c', c.insert doc = .ok c' → Q () c') ∧ ∀ e, c.insert doc = .error e → E e c := by
  simp only [insertOne, wp_bind, wp_get, wp_ofExcept, wp_set]

@[simp] theorem wp_updateOne {Q : Unit → Collection → Prop} {id : Value} {fields : Doc} :
    wp (updateOne id fields) Q E c ↔
      (∀ c', c.update id fields = .ok c' → Q () c') ∧ ∀ e, c.update id fields = .error e → E e c := by
  simp only [updateOne, wp_bind, wp_get, wp_ofExcept, wp_set]

@[simp] theorem wp_deleteMany {Q : Nat → Collection → Prop} {query : Doc → Bool} :
    wp (deleteMany query) Q E c ↔ Q (c.docs.filter query).length (c.deleteMany query) := by
  simp only [deleteMany, wp_bind, wp_get, wp_set, wp_pure]

end Wp

end Ollog

import Ollog.Bson.Collection

/-!
# Databases

A database is a finite map from names to collections.  The server creates a collection when it is
first written to, so a collection that is not there reads as an empty one without an index.
-/

set_option autoImplicit false

namespace Ollog

open Effects

/-- Whether the driver accepts a name for a collection. -/
def collectionNameOk (name : String) : Bool :=
  name != "" && !containsText ".." name &&
    (!containsText "$" name || "oplog.$main".toList.isPrefixOf name.toList ||
      "$cmd".toList.isPrefixOf name.toList) &&
    name.toList.head? != some '.' && name.toList.getLast? != some '.' &&
    !name.toList.contains (Char.ofNat 0)

/-- A database. -/
structure Database where
  name : String
  collections : Std.ExtTreeMap String Collection
  names_ok : ∀ coll ∈ collections, collectionNameOk coll = true

namespace Database

theorem names_ok_empty : ∀ coll ∈ (∅ : Std.ExtTreeMap String Collection),
    collectionNameOk coll = true := by simp

/-- `db[coll]`. -/
def collection (db : Database) (coll : String) : Collection :=
  db.collections[coll]?.getD (.empty (db.name ++ "." ++ coll) false)

/-- The documents of a collection. -/
def docs (db : Database) (coll : String) : List Doc := (db.collection coll).docs

/-- `sorted(db.list_collection_names())`. -/
def collectionNames (db : Database) : List String := db.collections.keys

/-- The database with a collection in the place of the one of that name. -/
def put (db : Database) (coll : String) (hcoll : collectionNameOk coll = true) (c : Collection) :
    Database where
  name := db.name
  collections := db.collections.insert coll c
  names_ok k hk := by
    rw [Std.ExtTreeMap.mem_insert, Std.compare_eq_iff_eq] at hk
    obtain rfl | hk := hk
    · exact hcoll
    · exact db.names_ok k hk

/-- `db[coll].drop()`. -/
def drop (db : Database) (coll : String) : Database where
  name := db.name
  collections := db.collections.erase coll
  names_ok k hk := db.names_ok k (Std.ExtTreeMap.mem_of_mem_erase hk)

/-- A computation on one collection of the database. -/
def on {α : Type} (coll : String) (hcoll : collectionNameOk coll = true) (m : Db α) :
    EStateM PyErr Database α := fun db ↦
  match m (db.collection coll) with
  | .ok a c => .ok a (db.put coll hcoll c)
  | .error exc c => .error exc (db.put coll hcoll c)

variable {db : Database} {coll other : String} {hcoll : collectionNameOk coll = true}
  {c : Collection}

@[simp] theorem collection_put : (db.put coll hcoll c).collection coll = c := by
  rw [collection, put, Std.ExtTreeMap.getElem?_insert_self, Option.getD_some]

@[simp] theorem collection_put_of_ne (h : other ≠ coll) :
    (db.put coll hcoll c).collection other = db.collection other := by
  rw [collection, put, Std.ExtTreeMap.getElem?_insert, if_neg (by simpa using Ne.symm h)]
  rfl

@[simp] theorem collection_drop :
    (db.drop coll).collection coll = .empty (db.name ++ "." ++ coll) false := by
  rw [collection, drop, Std.ExtTreeMap.getElem?_erase_self, Option.getD_none]

@[simp] theorem collection_drop_of_ne (h : other ≠ coll) :
    (db.drop coll).collection other = db.collection other := by
  rw [collection, drop, Std.ExtTreeMap.getElem?_erase, if_neg (by simpa using Ne.symm h)]
  rfl

/-- Putting a collection back where it is changes nothing. -/
theorem put_collection (h : coll ∈ db.collectionNames) :
    db.put coll hcoll (db.collection coll) = db := by
  rw [collectionNames, Std.ExtTreeMap.mem_keys] at h
  have hget := Std.ExtTreeMap.getElem?_eq_some_getElem h
  obtain ⟨name, collections, names_ok⟩ := db
  rw [put, Database.mk.injEq]
  refine ⟨rfl, Std.ExtTreeMap.ext_getElem? fun k ↦ ?_⟩
  rw [Std.ExtTreeMap.getElem?_insert]
  split
  · rename_i hk
    rw [← Std.compare_eq_iff_eq.1 hk, collection, hget, Option.getD_some]
  · rfl

@[simp] theorem put_put {c' : Collection} :
    (db.put coll hcoll c).put coll hcoll c' = db.put coll hcoll c' := by
  rw [put, put, put, Database.mk.injEq]
  refine ⟨rfl, Std.ExtTreeMap.ext_getElem? fun k ↦ ?_⟩
  rw [Std.ExtTreeMap.getElem?_insert, Std.ExtTreeMap.getElem?_insert,
    Std.ExtTreeMap.getElem?_insert]
  split <;> rfl

theorem mem_collectionNames_put {k : String} :
    k ∈ (db.put coll hcoll c).collectionNames ↔ k = coll ∨ k ∈ db.collectionNames := by
  rw [collectionNames, collectionNames, Std.ExtTreeMap.mem_keys, Std.ExtTreeMap.mem_keys, put,
    Std.ExtTreeMap.mem_insert, Std.compare_eq_iff_eq, @eq_comm _ coll k]

/-- A collection that is not there has no documents. -/
theorem docs_of_notMem (h : coll ∉ db.collectionNames) : db.docs coll = [] := by
  rw [collectionNames, Std.ExtTreeMap.mem_keys] at h
  rw [docs, collection, Std.ExtTreeMap.getElem?_eq_none h]
  rfl

theorem nameOk_of_mem (h : coll ∈ db.collectionNames) : collectionNameOk coll = true :=
  db.names_ok coll (Std.ExtTreeMap.mem_keys.1 h)

@[simp] theorem wp_on {α : Type} {m : Db α} {Q : α → Database → Prop}
    {E : PyErr → Database → Prop} : wp (on coll hcoll m) Q E db ↔
      wp m (fun a c ↦ Q a (db.put coll hcoll c)) (fun exc c ↦ E exc (db.put coll hcoll c))
        (db.collection coll) := by
  rw [wp, wp, on]
  cases m (db.collection coll) <;> rfl

/-- What a computation on one collection leaves behind. -/
theorem after_on {α : Type} {m : Db α} :
    after (on coll hcoll m) db = db.put coll hcoll (after m (db.collection coll)) := by
  rw [after, after, on]
  cases m (db.collection coll) <;> rfl

end Database

end Ollog

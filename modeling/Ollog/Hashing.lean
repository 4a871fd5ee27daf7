import Ollog.Bson.Value
import Ollog.Python.Sha256
import Mathlib.Data.List.Sort

/-!
# Deterministic document hashing

`canonicalDocumentHash` is the row hash of a document: the SHA-256 digest of a JSON text in which
object keys are sorted at every depth, identity and audit fields are dropped at every depth, and
dates are written as UTC instants.

Three shapes of the same QSO are hashed by the program: the fresh one with an aware date, the one
read back with a naive date, and the raw stored document.  What they have in common is what
`canonicalDocumentHash_congr` says: the hash sees a document only through `hashView`, the finite
map of its canonicalised, non-excluded fields.
-/

set_option autoImplicit false

namespace Ollog

/-- `DEFAULT_HASH_EXCLUDED_FIELDS`. -/
def hashExcludedFields : List String :=
  ["_id", "id", "rowHash", "row_hash", "createdAt", "updatedAt", "deletedAt", "importBatchId",
    "_created_at", "created_at", "_updated_at", "updated_at", "_deleted_at", "deleted_at"]

/-- The text of a date in a canonical document.  `isoformat` of a UTC datetime ends in `+00:00`,
the only place where that text occurs, and the source replaces it by `Z`. -/
def DateTime.canonicalText (dt : DateTime) : String :=
  (⟨dt.utc, none⟩ : DateTime).isoformat "T" ++ "Z"

theorem DateTime.canonicalText_toStored {dt : DateTime} (h : dt.utc % 1000 = 0) :
    dt.toStored.canonicalText = dt.canonicalText := by
  rw [DateTime.canonicalText, DateTime.canonicalText, DateTime.utc_toStored h]

/-- Sort the fields of an object by name. -/
def sortFields (fields : List (String × Value)) : List (String × Value) :=
  fields.insertionSort fun p q ↦ p.1 ≤ q.1

namespace Value

mutual
/-- `_canonicalize`. -/
def canonicalize : Value → Value
  | dict fields => dict (sortFields (canonicalizeFields fields))
  | datetime dt => str dt.canonicalText
  | list xs => list (canonicalizeList xs)
  | null => null
  | bool b => bool b
  | int n => int n
  | float t => float t
  | str s => str s
  | oid o => oid o
  | dbRef collection id database extra => dbRef collection id database extra

/-- `_canonicalize` of every element. -/
def canonicalizeList : List Value → List Value
  | [] => []
  | x :: xs => canonicalize x :: canonicalizeList xs

/-- `_canonicalize` of every field that is not excluded. -/
def canonicalizeFields : List (String × Value) → List (String × Value)
  | [] => []
  | (k, v) :: ps =>
    if k ∈ hashExcludedFields then canonicalizeFields ps
    else (k, canonicalize v) :: canonicalizeFields ps
end

/-- One character of a JSON string, with `ensure_ascii` off. -/
def jsonChar (c : Char) : List Char :=
  if c = '"' ∨ c = '\\' then ['\\', c]
  else if c = '\n' then ['\\', 'n']
  else if c = '\r' then ['\\', 'r']
  else if c = '\t' then ['\\', 't']
  else if c.toNat = 8 then ['\\', 'b']
  else if c.toNat = 12 then ['\\', 'f']
  else if c.toNat < 32 then ['\\', 'u'] ++ hexChars 4 c.toNat
  else [c]

/-- A JSON string. -/
def jsonString (s : String) : List Char := ['"'] ++ s.toList.flatMap jsonChar ++ ['"']

/-- A JSON number for a double, where `json.dumps` has its own names for what is not finite. -/
def jsonFloat (t : String) : List Char :=
  if t = "nan" then "NaN".toList
  else if t = "inf" then "Infinity".toList
  else if t = "-inf" then "-Infinity".toList
  else t.toList

section

variable [UnicodeData]

mutual
/-- `json.dumps` with `separators=(",", ":")` and `default=str`.  The keys of a canonical value are
sorted already, so `sort_keys` has nothing left to do. -/
def jsonDumps : Value → List Char
  | null => "null".toList
  | bool b => if b then "true".toList else "false".toList
  | int n => (toString n).toList
  | float t => jsonFloat t
  | str s => jsonString s
  | oid o => jsonString o.str
  | datetime dt => jsonString (dt.isoformat " ")
  | list xs => ['['] ++ jsonItems xs ++ [']']
  | dict fields => ['\x7b'] ++ jsonFields fields ++ ['\x7d']
  | dbRef collection id database extra =>
    jsonString (pyRepr (dbRef collection id database extra))

/-- The elements of an array. -/
def jsonItems : List Value → List Char
  | [] => []
  | [x] => jsonDumps x
  | x :: y :: xs => jsonDumps x ++ [','] ++ jsonItems (y :: xs)

/-- The members of an object. -/
def jsonFields : List (String × Value) → List Char
  | [] => []
  | [(k, v)] => jsonString k ++ [':'] ++ jsonDumps v
  | (k, v) :: p :: ps => jsonString k ++ [':'] ++ jsonDumps v ++ [','] ++ jsonFields (p :: ps)
end

end

theorem canonicalizeFields_eq_filterMap (ps : List (String × Value)) :
    canonicalizeFields ps = ps.filterMap fun p ↦
      (if p.1 ∈ hashExcludedFields then none else some (canonicalize p.2)).map (p.1, ·) := by
  induction ps with
  | nil => rfl
  | cons p ps ih =>
    obtain ⟨k, v⟩ := p
    rw [canonicalizeFields, List.filterMap_cons, ih]
    by_cases h : k ∈ hashExcludedFields
    · simp only [h, if_true, Option.map_none]
    · simp only [h, if_false, Option.map_some]

end Value

section

variable [UnicodeData]

/-- The canonical JSON text of a document. -/
def canonicalPayload (document : Doc) : List Char :=
  (Value.dict document.toList).canonicalize.jsonDumps

/-- `canonical_document_hash`. -/
def canonicalDocumentHash (document : Doc) : String :=
  sha256Hex ((canonicalPayload document).flatMap String.utf8EncodeChar)

/-! ## What the hash depends on -/

/-- The part of a document that is hashed. -/
def hashView (d : Doc) : Doc :=
  d.filterMap fun k v ↦ if k ∈ hashExcludedFields then none else some v.canonicalize

theorem canonicalPayload_eq_hashView (d : Doc) :
    canonicalPayload d = (Value.dict (sortFields (hashView d).toList)).jsonDumps := by
  rw [canonicalPayload, Value.canonicalize, Value.canonicalizeFields_eq_filterMap, hashView,
    Std.ExtTreeMap.toList_filterMap]

omit [UnicodeData] in
theorem getElem?_hashView (d : Doc) (k : String) :
    (hashView d)[k]? =
      if k ∈ hashExcludedFields then none else d[k]?.map Value.canonicalize := by
  rw [hashView, Std.ExtTreeMap.getElem?_filterMap']
  split
  · cases d[k]? <;> rfl
  · cases d[k]? <;> rfl

/-- **The hash is a function of the canonical content.**  Two documents whose non-excluded fields
canonicalise to the same values have the same hash. -/
theorem canonicalDocumentHash_congr {d e : Doc}
    (h : ∀ k, k ∉ hashExcludedFields →
      d[k]?.map Value.canonicalize = e[k]?.map Value.canonicalize) :
    canonicalDocumentHash d = canonicalDocumentHash e := by
  have hview : hashView d = hashView e := by
    refine Std.ExtTreeMap.ext_getElem? fun k ↦ ?_
    rw [getElem?_hashView, getElem?_hashView]
    split
    · rfl
    · rename_i hk
      exact h k hk
  rw [canonicalDocumentHash, canonicalDocumentHash, canonicalPayload_eq_hashView,
    canonicalPayload_eq_hashView, hview]

end

/-! ## Storing a document does not change its hash -/

namespace Value

mutual
/-- Whether a value that is stored keeps its hash: its dates are whole numbers of milliseconds, which
is all the database keeps, and no object in it that is hashed is read back as a `DBRef`. -/
def hashStable : Value → Bool
  | null | bool _ | int _ | float _ | str _ | oid _ => true
  | datetime dt => dt.utc % 1000 == 0
  | list xs => hashStableList xs
  | dict fields => (reference fields).isNone && hashStableFields fields
  | dbRef .. => false

/-- `hashStable` of every element. -/
def hashStableList : List Value → Bool
  | [] => true
  | x :: xs => hashStable x && hashStableList xs

/-- `hashStable` of every field that is hashed. -/
def hashStableFields : List (String × Value) → Bool
  | [] => true
  | (k, v) :: ps => (hashExcludedFields.contains k || hashStable v) && hashStableFields ps
end

mutual
theorem canonicalize_toStored : ∀ v : Value, v.hashStable = true →
    v.toStored.canonicalize = v.canonicalize
  | null, _ | bool _, _ | int _, _ | float _, _ | str _, _ | oid _, _ => rfl
  | datetime dt, h => by
    rw [toStored, canonicalize, canonicalize,
      DateTime.canonicalText_toStored (by simpa [hashStable] using h)]
  | list xs, h => by
    rw [toStored, canonicalize, canonicalize,
      canonicalizeList_toStored xs (by simpa [hashStable] using h)]
  | dict ps, h => by
    rw [hashStable, Bool.and_eq_true, Option.isNone_iff_eq_none] at h
    rw [toStored, decodeFields_toStoredFields h.1, canonicalize, canonicalize,
      canonicalizeFields_toStored ps h.2]
  | dbRef .., h => by simp [hashStable] at h

theorem canonicalizeList_toStored : ∀ xs, hashStableList xs = true →
    canonicalizeList (toStoredList xs) = canonicalizeList xs
  | [], _ => rfl
  | x :: xs, h => by
    rw [hashStableList, Bool.and_eq_true] at h
    rw [toStoredList, canonicalizeList, canonicalizeList, canonicalize_toStored x h.1,
      canonicalizeList_toStored xs h.2]

theorem canonicalizeFields_toStored : ∀ ps, hashStableFields ps = true →
    canonicalizeFields (toStoredFields ps) = canonicalizeFields ps
  | [], _ => rfl
  | (k, v) :: ps, h => by
    rw [hashStableFields, Bool.and_eq_true, Bool.or_eq_true, List.contains_iff_mem] at h
    rw [toStoredFields, canonicalizeFields, canonicalizeFields, canonicalizeFields_toStored ps h.2]
    split
    · rfl
    · rename_i hk
      rw [canonicalize_toStored v (h.1.resolve_left hk)]
end

end Value

/-- **Storing keeps the hash** of a document whose hashed fields are stable: it is read back with the
same hash, although its dates come back without their zone. -/
theorem canonicalDocumentHash_toStored [UnicodeData] {d : Doc}
    (h : ∀ k, k ∉ hashExcludedFields → ∀ v, d[k]? = some v → v.hashStable = true) :
    canonicalDocumentHash (Doc.toStored d) = canonicalDocumentHash d := by
  refine canonicalDocumentHash_congr fun k hk ↦ ?_
  rw [Doc.getElem?_toStored]
  cases hv : d[k]? with
  | none => rfl
  | some v => simpa using Value.canonicalize_toStored v (h k hk v hv)

end Ollog

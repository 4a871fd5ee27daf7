import Ollog.Python.Datetime
import Mathlib.Order.Lattice
import Mathlib.Tactic.Ring
import Std.Data.ExtTreeMap

/-!
# Documents

A MongoDB document is a finite map from field names to values, and so is a Python `dict` with
string keys.  Both are `Std.ExtTreeMap String Value`, whose equality is equality of finite maps:
the order in which the fields were written is not part of it, as it is not part of Python's `==`.
No result below depends on that order, because everything the program prints it sorts first.

A value is what both sides can hold.  A floating-point number is represented by its shortest
decimal text, which is what `json.dumps` and `str` print and which determines it; the program does
no arithmetic on one.
-/

set_option autoImplicit false

namespace Ollog

/-- `bson.ObjectId`: twelve bytes. -/
structure ObjectId where
  val : BitVec 96
  deriving DecidableEq, Repr

/-- `str(oid)`: twenty-four hexadecimal digits. -/
def ObjectId.str (o : ObjectId) : String := String.ofList (hexChars 24 o.val.toNat)

/-- The value of a hexadecimal digit of either case. -/
def hexValue (c : Char) : Option Nat :=
  if charRange '0' '9' c then some (c.toNat - '0'.toNat)
  else if charRange 'a' 'f' c then some (c.toNat - 'a'.toNat + 10)
  else if charRange 'A' 'F' c then some (c.toNat - 'A'.toNat + 10)
  else none

/-- `ObjectId(text)`, with `none` for `InvalidId`. -/
def ObjectId.ofText (text : String) : Option ObjectId :=
  if text.toList.length = 24 then
    (text.toList.foldlM (fun n c ↦ (hexValue c).map (n * 16 + ·)) 0).map fun n ↦ ⟨BitVec.ofNat 96 n⟩
  else none

theorem hexValue_hexDigit {n : Nat} (h : n < 16) : hexValue (hexDigit n) = some n := by
  have hall : ∀ i : Fin 16, hexValue (hexDigit i) = some i.val := by decide
  exact hall ⟨n, h⟩

theorem length_hexChars (width n : Nat) : (hexChars width n).length = width := by
  induction width generalizing n with
  | zero => rfl
  | succ width ih => rw [hexChars, List.length_append, ih, List.length_singleton]

/-- Reading the digits of a number from the left. -/
theorem foldlM_hexChars (width n a : Nat) :
    (hexChars width n).foldlM (fun n c ↦ (hexValue c).map (n * 16 + ·)) a =
      some (a * 16 ^ width + n % 16 ^ width) := by
  induction width generalizing n with
  | zero => simp [hexChars, Nat.mod_one]
  | succ width ih =>
    rw [hexChars, List.foldlM_append, ih, Option.bind_eq_bind, Option.bind_some,
      List.foldlM_cons, hexValue_hexDigit (Nat.mod_lt _ (by decide)), Option.map_some,
      Option.bind_eq_bind, Option.bind_some, List.foldlM_nil]
    refine congrArg some ?_
    rw [Nat.pow_succ', Nat.mod_mul]
    ring

/-- **The text of an object id** is read as that object id. -/
@[simp] theorem ObjectId.ofText_str (o : ObjectId) : ObjectId.ofText o.str = some o := by
  rw [ofText, str, String.toList_ofList, if_pos (length_hexChars 24 _), foldlM_hexChars,
    Option.map_some, Nat.zero_mul, Nat.zero_add,
    Nat.mod_eq_of_lt (show o.val.toNat < 16 ^ 24 from o.val.isLt), BitVec.ofNat_toNat,
    BitVec.setWidth_eq]

theorem ObjectId.str_injective : Function.Injective ObjectId.str := fun o o' h ↦
  Option.some.inj ((ofText_str o).symm.trans ((congrArg ofText h).trans (ofText_str o')))

/-- The values a document holds. -/
inductive Value where
  | null
  | bool (b : Bool)
  | int (n : Int)
  /-- A double, by its shortest decimal text. -/
  | float (text : String)
  | str (s : String)
  | oid (o : ObjectId)
  | datetime (dt : DateTime)
  | list (xs : List Value)
  | dict (fields : List (String × Value))
  /-- `bson.DBRef`: the driver's own type for a sub-document with a text `$ref` and an `$id`. -/
  | dbRef (collection : String) (id : Value) (database : Option String)
    (extra : List (String × Value))
  deriving Repr

/-- A document, or a `dict` with string keys. -/
abbrev Doc := Std.ExtTreeMap String Value

namespace Value

/-! ## Equality is decidable -/

mutual
/-- Whether two values are the same. -/
def beq : Value → Value → Bool
  | null, null => true
  | bool a, bool b => a == b
  | int a, int b => a == b
  | float a, float b => a == b
  | str a, str b => a == b
  | oid a, oid b => decide (a = b)
  | datetime a, datetime b => decide (a = b)
  | list xs, list ys => beqList xs ys
  | dict xs, dict ys => beqFields xs ys
  | dbRef c i d xs, dbRef c' i' d' ys => c == c' && beq i i' && d == d' && beqFields xs ys
  | _, _ => false

/-- `beq` on lists. -/
def beqList : List Value → List Value → Bool
  | [], [] => true
  | x :: xs, y :: ys => beq x y && beqList xs ys
  | _, _ => false

/-- `beq` on fields. -/
def beqFields : List (String × Value) → List (String × Value) → Bool
  | [], [] => true
  | (k, x) :: xs, (l, y) :: ys => k == l && beq x y && beqFields xs ys
  | _, _ => false
end

mutual
theorem beq_iff : ∀ a b : Value, beq a b = true ↔ a = b
  | null, b | bool _, b | int _, b | float _, b | str _, b | oid _, b | datetime _, b => by
    cases b <;> simp [beq]
  | list xs, b => by cases b <;> simp [beq, beqList_iff xs]
  | dict xs, b => by cases b <;> simp [beq, beqFields_iff xs]
  | dbRef c i d xs, b => by
    cases b <;> simp [beq, beq_iff i, beqFields_iff xs, and_assoc]

theorem beqList_iff : ∀ xs ys : List Value, beqList xs ys = true ↔ xs = ys
  | [], ys => by cases ys <;> simp [beqList]
  | x :: xs, ys => by cases ys <;> simp [beqList, beq_iff x, beqList_iff xs]

theorem beqFields_iff : ∀ xs ys : List (String × Value), beqFields xs ys = true ↔ xs = ys
  | [], ys => by cases ys <;> simp [beqFields]
  | (k, x) :: xs, ys => by
    rcases ys with _ | ⟨⟨l, y⟩, ys⟩
    · simp [beqFields]
    · simp [beqFields, beq_iff x, beqFields_iff xs]
end

instance : DecidableEq Value := fun a b ↦ decidable_of_iff _ (beq_iff a b)

/-! ## Python's view of a value -/

/-- `bool(value)`. -/
def truthy : Value → Bool
  | null => false
  | bool b => b
  | int n => n != 0
  | float t => t != "0.0" && t != "-0.0"
  | str s => s != ""
  | oid _ | datetime _ | dbRef .. => true
  | list xs => !xs.isEmpty
  | dict fields => !fields.isEmpty

theorem truthy_str {s : String} (h : s ≠ "") : (str s).truthy = true := by
  simpa [truthy] using h

/-- `a or b`, where `a` may be the `None` of a missing key. -/
def orElse (a : Option Value) (b : Option Value) : Option Value :=
  match a with
  | some v => if v.truthy then some v else b
  | none => b

theorem orElse_cases (a b : Option Value) : orElse a b = a ∨ orElse a b = b := by
  unfold orElse
  split
  · split
    · exact .inl rfl
    · exact .inr rfl
  · exact .inr rfl

section Str

variable [UnicodeData]

mutual
/-- `repr(value)`. -/
def pyRepr : Value → String
  | null => "None"
  | bool b => if b then "True" else "False"
  | int n => toString n
  | float t => t
  | str s => reprText s
  | oid o => "ObjectId('" ++ o.str ++ "')"
  | datetime dt => dt.isoformat " "
  | list xs => "[" ++ reprItems xs ++ "]"
  | dict fields => "\x7b" ++ reprFields fields ++ "\x7d"
  | dbRef collection id database extra =>
    "DBRef(" ++ reprText collection ++ ", " ++ pyRepr id ++
      (match database with
        | none => ""
        | some name => ", " ++ reprText name) ++ reprKeywords extra ++ ")"

/-- The elements of a list, as `repr` separates them. -/
def reprItems : List Value → String
  | [] => ""
  | [x] => pyRepr x
  | x :: y :: xs => pyRepr x ++ ", " ++ reprItems (y :: xs)

/-- The items of a dictionary, as `repr` separates them. -/
def reprFields : List (String × Value) → String
  | [] => ""
  | [(k, v)] => reprText k ++ ": " ++ pyRepr v
  | (k, v) :: p :: ps => reprText k ++ ": " ++ pyRepr v ++ ", " ++ reprFields (p :: ps)

/-- The further fields of a `DBRef`, as its `repr` lists them. -/
def reprKeywords : List (String × Value) → String
  | [] => ""
  | (k, v) :: ps => ", " ++ k ++ "=" ++ pyRepr v ++ reprKeywords ps
end

/-- `str(value)`. -/
def pyStr : Value → String
  | str s => s
  | oid o => o.str
  | v => pyRepr v

end Str

/-! ## JSON -/

mutual
/-- A value that can come out of a JSON text: no dates and no types of the driver, at any depth. -/
def isJson : Value → Bool
  | null | bool _ | int _ | float _ | str _ => true
  | oid _ | datetime _ | dbRef .. => false
  | list xs => isJsonList xs
  | dict fields => isJsonFields fields

/-- `isJson` of every element. -/
def isJsonList : List Value → Bool
  | [] => true
  | x :: xs => isJson x && isJsonList xs

/-- `isJson` of every field. -/
def isJsonFields : List (String × Value) → Bool
  | [] => true
  | (_, v) :: ps => isJson v && isJsonFields ps
end

/-! ## What the database keeps -/

/-- The text of a value that is one. -/
def asText : Value → Option String
  | str s => some s
  | _ => none

/-- What a `DBRef` takes for the name of its database, of a `$db` that is a text, null or missing. -/
def databaseName : Option Value → Option (Option String)
  | none | some null => some none
  | some (str name) => some (some name)
  | some _ => none

/-- The `$ref`, the `$id` and the `$db` of a sub-document that the driver reads as a `DBRef`. -/
def reference (fields : List (String × Value)) : Option (String × Value × Option String) := do
  let collection ← (fields.lookup "$ref").bind asText
  let id ← fields.lookup "$id"
  let database ← databaseName (fields.lookup "$db")
  return (collection, id, database)

/-- The names that are taken out of the fields of such a sub-document. -/
def referenceNames : List String := ["$ref", "$id", "$db"]

/-- How the driver reads a sub-document. -/
def decodeFields (fields : List (String × Value)) : Value :=
  match reference fields with
  | some (collection, id, database) =>
    dbRef collection id database (fields.filter fun p ↦ !referenceNames.contains p.1)
  | none => dict fields

/-- A single field is no reference. -/
theorem reference_singleton (c : String) (v : Value) : reference [(c, v)] = none := by
  rw [reference, List.lookup_cons, List.lookup_cons]
  by_cases hc : "$ref" = c
  · subst hc
    cases v <;> rfl
  · rw [beq_false_of_ne hc]
    rfl

theorem decodeFields_of_none {fields : List (String × Value)} (h : reference fields = none) :
    decodeFields fields = dict fields := by
  rw [decodeFields, h]

/-- `DBRef.as_doc`: the fields under which the driver stores one. -/
def asDoc (collection : String) (id : Value) (database : Option String)
    (extra : List (String × Value)) : List (String × Value) :=
  ("$ref", str collection) :: ("$id", id) :: database.toList.map (fun name ↦ ("$db", str name)) ++
    extra

mutual
/-- The value that is read back after a value has been stored: datetimes lose their zone and what
they have below a millisecond, a sub-document in the shape of a reference comes back as a `DBRef`,
and everything else is returned as it was. -/
def toStored : Value → Value
  | null => null
  | bool b => bool b
  | int n => int n
  | float t => float t
  | str s => str s
  | oid o => oid o
  | datetime dt => datetime dt.toStored
  | list xs => list (toStoredList xs)
  | dict fields => decodeFields (toStoredFields fields)
  | dbRef collection id database extra =>
    decodeFields (asDoc collection (toStored id) database (toStoredFields extra))

/-- `toStored` of every element. -/
def toStoredList : List Value → List Value
  | [] => []
  | x :: xs => toStored x :: toStoredList xs

/-- `toStored` of every field. -/
def toStoredFields : List (String × Value) → List (String × Value)
  | [] => []
  | (k, v) :: ps => (k, toStored v) :: toStoredFields ps
end

theorem asText_decodeFields (fields : List (String × Value)) :
    (decodeFields fields).asText = none := by
  rw [decodeFields]
  split <;> rfl

theorem decodeFields_ne_list (fields : List (String × Value)) (xs : List Value) :
    decodeFields fields ≠ list xs := by
  rw [decodeFields]
  split <;> exact fun h ↦ nomatch h

/-- A text is stored as it is, and nothing else is read back as one. -/
theorem asText_toStored (v : Value) : v.toStored.asText = v.asText := by
  cases v <;> rw [toStored] <;> first | rfl | exact asText_decodeFields _

theorem asText_eq_some {v : Value} {s : String} : v.asText = some s ↔ v = str s := by
  cases v <;> simp [asText]

theorem toStored_eq_str {v : Value} {s : String} (h : v.toStored = str s) : v = str s := by
  rw [← asText_eq_some] at h ⊢
  rw [← asText_toStored, h]

/-- Nothing but a date is read back as a date. -/
theorem exists_datetime_of_toStored {v : Value} {dt : DateTime} (h : v.toStored = datetime dt) :
    ∃ dt', v = datetime dt' ∧ dt'.toStored = dt := by
  have hdecode : ∀ fields, decodeFields fields ≠ datetime dt := fun fields ↦ by
    rw [decodeFields]
    split <;> exact fun h ↦ nomatch h
  cases v with
  | datetime dt' => exact ⟨dt', rfl, datetime.inj h⟩
  | dict _ | dbRef _ _ _ _ => exact absurd h (hdecode _)
  | _ => cases h

theorem exists_list_of_toStored {v : Value} {xs : List Value} (h : v.toStored = list xs) :
    ∃ ys, v = list ys := by
  cases v with
  | list ys => exact ⟨ys, rfl⟩
  | dict fields => exact absurd h (decodeFields_ne_list _ _)
  | dbRef collection id database extra => exact absurd h (decodeFields_ne_list _ _)
  | _ => cases h

theorem databaseName_toStored (v : Option Value) :
    databaseName (v.map toStored) = databaseName v := by
  have hdecode : ∀ fields, databaseName (some (decodeFields fields)) = none := fun fields ↦ by
    rw [decodeFields]
    split <;> rfl
  rcases v with _ | v
  · rfl
  · cases v <;> rw [Option.map_some, toStored] <;> first | rfl | exact hdecode _

theorem lookup_toStoredFields (k : String) (ps : List (String × Value)) :
    (toStoredFields ps).lookup k = (ps.lookup k).map toStored := by
  induction ps with
  | nil => rfl
  | cons p ps ih =>
    rw [toStoredFields, List.lookup_cons, List.lookup_cons, ih]
    split <;> rfl

/-- **Storing a sub-document does not make a reference of it.** -/
theorem decodeFields_toStoredFields {ps : List (String × Value)} (h : reference ps = none) :
    decodeFields (toStoredFields ps) = dict (toStoredFields ps) := by
  refine decodeFields_of_none ?_
  have hsame : reference (toStoredFields ps) =
      (reference ps).map fun found ↦ (found.1, found.2.1.toStored, found.2.2) := by
    simp only [reference, lookup_toStoredFields, databaseName_toStored]
    cases ps.lookup "$ref" <;> cases ps.lookup "$id" <;>
      simp [asText_toStored, Option.map_bind]
  rw [hsame, h, Option.map_none]

mutual
/-- Whether the BSON encoder accepts a value: integers of at most 64 bits, and no field name with
a zero byte. -/
def encodable : Value → Bool
  | null | bool _ | float _ | str _ | oid _ | datetime _ => true
  | int n => decide (-(2 ^ 63) ≤ n) && decide (n < 2 ^ 63)
  | list xs => encodableList xs
  | dict fields => encodableFields fields
  | dbRef _ id _ extra => encodable id && encodableFields extra

/-- `encodable` of every element. -/
def encodableList : List Value → Bool
  | [] => true
  | x :: xs => encodable x && encodableList xs

/-- `encodable` of every field. -/
def encodableFields : List (String × Value) → Bool
  | [] => true
  | (k, v) :: ps => !k.toList.contains (Char.ofNat 0) && encodable v && encodableFields ps
end

mutual
/-- Whether a value is one the database returns. -/
def isStored : Value → Bool
  | null | bool _ | float _ | str _ | oid _ => true
  | int n => decide (-(2 ^ 63) ≤ n) && decide (n < 2 ^ 63)
  | datetime dt => decide (dt.toStored = dt)
  | list xs => isStoredList xs
  | dict fields => (reference fields).isNone && isStoredFields fields
  | dbRef _ id _ extra =>
    isStored id && isStoredFields extra && extra.all fun p ↦ !referenceNames.contains p.1

/-- `isStored` of every element. -/
def isStoredList : List Value → Bool
  | [] => true
  | x :: xs => isStored x && isStoredList xs

/-- `isStored` of every field. -/
def isStoredFields : List (String × Value) → Bool
  | [] => true
  | (k, v) :: ps => !k.toList.contains (Char.ofNat 0) && isStored v && isStoredFields ps
end

theorem isStoredList_iff {xs : List Value} :
    isStoredList xs = true ↔ ∀ x ∈ xs, x.isStored = true := by
  induction xs with
  | nil => simp [isStoredList]
  | cons x xs ih => rw [isStoredList, Bool.and_eq_true, ih, List.forall_mem_cons]

theorem isStoredFields_iff {ps : List (String × Value)} : isStoredFields ps = true ↔
    ∀ p ∈ ps, p.1.toList.contains (Char.ofNat 0) = false ∧ p.2.isStored = true := by
  induction ps with
  | nil => simp [isStoredFields]
  | cons p ps ih =>
    rw [isStoredFields, Bool.and_eq_true, Bool.and_eq_true, ih, List.forall_mem_cons,
      Bool.not_eq_true']

/-- What `reference` returns was found in the fields. -/
theorem mem_of_reference {ps : List (String × Value)} {collection : String} {id : Value}
    {database : Option String} (h : reference ps = some (collection, id, database)) :
    ("$id", id) ∈ ps := by
  obtain ⟨_, -, h⟩ := Option.bind_eq_some_iff.1 h
  obtain ⟨id', hid, h⟩ := Option.bind_eq_some_iff.1 h
  obtain ⟨_, -, h⟩ := Option.bind_eq_some_iff.1 h
  cases h
  obtain ⟨before, later, rfl, -⟩ := List.lookup_eq_some_iff.1 hid
  exact List.mem_append_right _ (List.mem_cons_self ..)

theorem isStored_decodeFields {ps : List (String × Value)} (h : isStoredFields ps = true) :
    (decodeFields ps).isStored = true := by
  rw [decodeFields]
  split
  · rename_i collection id database href
    rw [isStoredFields_iff] at h
    have hextra : isStoredFields (ps.filter fun p ↦ !referenceNames.contains p.1) = true :=
      isStoredFields_iff.2 fun p hp ↦ h p (List.mem_filter.1 hp).1
    rw [isStored, (h _ (mem_of_reference href)).2, hextra, Bool.true_and, Bool.true_and,
      List.all_eq_true]
    exact fun p hp ↦ (List.mem_filter.1 hp).2
  · rename_i href
    rw [isStored, href, h]
    rfl

/-- A `DBRef` is read back as it is. -/
theorem decodeFields_asDoc {collection : String} {id : Value} {database : Option String}
    {extra : List (String × Value)}
    (h : (extra.all fun p ↦ !referenceNames.contains p.1) = true) :
    decodeFields (asDoc collection id database extra) = dbRef collection id database extra := by
  have hnames : ∀ (k : String) (v : Value), (k, v) ∈ extra → k ≠ "$ref" ∧ k ≠ "$id" ∧ k ≠ "$db" :=
    fun k v hv ↦ by simpa [referenceNames] using List.all_eq_true.1 h (k, v) hv
  have hdb : extra.lookup "$db" = none := by
    refine List.lookup_eq_none_iff.2 fun p hp ↦ bne_iff_ne.2 fun heq ↦ ?_
    exact (hnames p.1 p.2 hp).2.2 heq.symm
  cases database <;>
    simp [decodeFields, reference, asDoc, asText, databaseName, List.lookup_cons, hdb,
      referenceNames] <;> exact hnames

theorem isStored_of_mem_asDoc {collection : String} {id : Value} {database : Option String}
    {extra : List (String × Value)} (hid : id.isStored = true)
    (hextra : ∀ p ∈ extra, p.1.toList.contains (Char.ofNat 0) = false ∧ p.2.isStored = true) :
    ∀ p ∈ asDoc collection id database extra,
      p.1.toList.contains (Char.ofNat 0) = false ∧ p.2.isStored = true := by
  have hzero : ∀ k ∈ referenceNames, k.toList.contains (Char.ofNat 0) = false := by decide
  intro p hp
  simp only [asDoc, List.cons_append, List.mem_cons, List.mem_append, List.mem_map,
    Option.mem_toList] at hp
  obtain rfl | rfl | ⟨name, -, rfl⟩ | hp := hp
  · exact ⟨hzero "$ref" (by decide), rfl⟩
  · exact ⟨hzero "$id" (by decide), hid⟩
  · exact ⟨hzero "$db" (by decide), rfl⟩
  · exact hextra p hp

mutual
/-- What is read back of a value that could be encoded is one the database returns. -/
theorem isStored_toStored : ∀ v : Value, v.encodable = true → v.toStored.isStored = true
  | null, _ | bool _, _ | float _, _ | str _, _ | oid _, _ => rfl
  | int _, h => h
  | datetime dt, _ => by rw [toStored, isStored, DateTime.toStored_toStored, decide_eq_true rfl]
  | list xs, h => isStoredList_toStored xs h
  | dict ps, h => isStored_decodeFields (isStoredFields_toStored ps h)
  | dbRef collection id database extra, h => by
    rw [encodable, Bool.and_eq_true] at h
    exact isStored_decodeFields (isStoredFields_iff.2 (isStored_of_mem_asDoc
      (isStored_toStored id h.1) (isStoredFields_iff.1 (isStoredFields_toStored extra h.2))))

theorem isStoredList_toStored : ∀ xs, encodableList xs = true →
    isStoredList (toStoredList xs) = true
  | [], _ => rfl
  | x :: xs, h => by
    rw [encodableList, Bool.and_eq_true] at h
    rw [toStoredList, isStoredList, isStored_toStored x h.1, isStoredList_toStored xs h.2]
    rfl

theorem isStoredFields_toStored : ∀ ps, encodableFields ps = true →
    isStoredFields (toStoredFields ps) = true
  | [], _ => rfl
  | (k, v) :: ps, h => by
    rw [encodableFields, Bool.and_eq_true, Bool.and_eq_true] at h
    rw [toStoredFields, isStoredFields, h.1.1, isStored_toStored v h.1.2,
      isStoredFields_toStored ps h.2]
    rfl
end

mutual
/-- The database returns what it has returned before. -/
theorem toStored_of_isStored : ∀ v : Value, v.isStored = true → v.toStored = v
  | null, _ | bool _, _ | int _, _ | float _, _ | str _, _ | oid _, _ => rfl
  | datetime _, h => congrArg datetime (of_decide_eq_true h)
  | list xs, h => congrArg list (toStoredList_of_isStored xs h)
  | dict ps, h => by
    rw [isStored, Bool.and_eq_true, Option.isNone_iff_eq_none] at h
    rw [toStored, toStoredFields_of_isStored ps h.2, decodeFields, h.1]
  | dbRef collection id database extra, h => by
    rw [isStored, Bool.and_eq_true, Bool.and_eq_true] at h
    rw [toStored, toStored_of_isStored id h.1.1, toStoredFields_of_isStored extra h.1.2,
      decodeFields_asDoc h.2]

theorem toStoredList_of_isStored : ∀ xs, isStoredList xs = true → toStoredList xs = xs
  | [], _ => rfl
  | x :: xs, h => by
    rw [isStoredList, Bool.and_eq_true] at h
    rw [toStoredList, toStored_of_isStored x h.1, toStoredList_of_isStored xs h.2]

theorem toStoredFields_of_isStored : ∀ ps, isStoredFields ps = true → toStoredFields ps = ps
  | [], _ => rfl
  | (k, v) :: ps, h => by
    rw [isStoredFields, Bool.and_eq_true, Bool.and_eq_true] at h
    rw [toStoredFields, toStored_of_isStored v h.1.2, toStoredFields_of_isStored ps h.2]
end

mutual
/-- What the database returns can be encoded again. -/
theorem encodable_of_isStored : ∀ v : Value, v.isStored = true → v.encodable = true
  | null, _ | bool _, _ | float _, _ | str _, _ | oid _, _ | datetime _, _ => rfl
  | int _, h => h
  | list xs, h => encodableList_of_isStored xs h
  | dict ps, h => encodableFields_of_isStored ps (Bool.and_eq_true_iff.1 h).2
  | dbRef _ id _ extra, h => by
    rw [isStored, Bool.and_eq_true, Bool.and_eq_true] at h
    rw [encodable, encodable_of_isStored id h.1.1, encodableFields_of_isStored extra h.1.2]
    rfl

theorem encodableList_of_isStored : ∀ xs, isStoredList xs = true → encodableList xs = true
  | [], _ => rfl
  | x :: xs, h => by
    rw [isStoredList, Bool.and_eq_true] at h
    rw [encodableList, encodable_of_isStored x h.1, encodableList_of_isStored xs h.2]
    rfl

theorem encodableFields_of_isStored : ∀ ps, isStoredFields ps = true → encodableFields ps = true
  | [], _ => rfl
  | (k, v) :: ps, h => by
    rw [isStoredFields, Bool.and_eq_true, Bool.and_eq_true] at h
    rw [encodableFields, h.1.1, encodable_of_isStored v h.1.2, encodableFields_of_isStored ps h.2]
    rfl
end

end Value

/-! ## Documents as finite maps -/

namespace Doc

/-- The document that is read back after a document has been stored. -/
def toStored (d : Doc) : Doc := d.map fun _ v ↦ v.toStored

@[simp, grind =] theorem getElem?_toStored (d : Doc) (k : String) :
    (toStored d)[k]? = d[k]?.map Value.toStored := by
  rw [toStored, Std.ExtTreeMap.getElem?_map]

@[simp] theorem mem_toStored {d : Doc} {k : String} : k ∈ toStored d ↔ k ∈ d := by
  rw [toStored, Std.ExtTreeMap.mem_map]

theorem getElem?_insert (d : Doc) (k a : String) (v : Value) :
    (d.insert k v)[a]? = if a = k then some v else d[a]? := by
  rw [Std.ExtTreeMap.getElem?_insert]
  simp only [Std.compare_eq_iff_eq, @eq_comm _ k a]

theorem eq_of_getElem?_insert_empty {k j : String} {v w : Value}
    (h : ((∅ : Doc).insert k v)[j]? = some w) : j = k ∧ w = v := by
  rw [getElem?_insert] at h
  split at h
  · rename_i hj
    exact ⟨hj, (Option.some.inj h).symm⟩
  · simp at h

theorem getElem?_erase (d : Doc) (k a : String) :
    (d.erase k)[a]? = if a = k then none else d[a]? := by
  rw [Std.ExtTreeMap.getElem?_erase]
  simp only [Std.compare_eq_iff_eq, @eq_comm _ k a]

/-- Keep the fields whose names pass a test. -/
def keep (d : Doc) (p : String → Bool) : Doc := d.filter fun k _ ↦ p k

theorem getElem?_keep (d : Doc) (p : String → Bool) (k : String) :
    (d.keep p)[k]? = if p k then d[k]? else none := by
  rw [keep, Std.ExtTreeMap.getElem?_filter']
  cases d[k]? <;> simp [Option.filter]

theorem mem_iff_ne_none {d : Doc} {k : String} : k ∈ d ↔ d[k]? ≠ none := by
  rw [Std.ExtTreeMap.mem_iff_isSome_getElem?, Option.isSome_iff_ne_none]

/-- What holds of every entry of a list holds of every field of the dictionary made from it. -/
theorem forall_ofList {P : String → Value → Prop} {ps : List (String × Value)}
    (h : ∀ p ∈ ps, P p.1 p.2) {k : String} {v : Value}
    (hv : (Std.ExtTreeMap.ofList ps : Doc)[k]? = some v) : P k v := by
  have hinsert : ∀ d : Doc, (∀ (k : String) (v : Value), d[k]? = some v → P k v) →
      (d.insertMany ps)[k]? = some v → P k v := by
    clear hv
    induction ps with
    | nil => exact fun d hd hv ↦ hd k v (by simpa using hv)
    | cons p ps ih =>
      intro d hd hv
      rw [Std.ExtTreeMap.insertMany_cons] at hv
      refine ih (fun q hq ↦ h q (List.mem_cons_of_mem _ hq)) _ (fun j w hw ↦ ?_) hv
      rw [getElem?_insert] at hw
      split at hw
      · rename_i hj
        cases hw
        exact hj ▸ h p (List.mem_cons_self ..)
      · exact hd j w hw
  refine hinsert ∅ (fun k v hv ↦ by simp at hv) ?_
  rwa [← Std.ExtTreeMap.ofList_eq_insertMany_empty]

/-- A dictionary made of the fields of a document. -/
theorem ofList_toList (d : Doc) : (Std.ExtTreeMap.ofList d.toList : Doc) = d := by
  refine Std.ExtTreeMap.ext_getElem? fun k ↦ ?_
  cases hv : d[k]? with
  | none =>
    refine Std.ExtTreeMap.getElem?_ofList_of_contains_eq_false ?_
    rw [Std.ExtTreeMap.map_fst_toList_eq_keys, List.contains_eq_mem, decide_eq_false_iff_not,
      Std.ExtTreeMap.mem_keys]
    exact fun hk ↦ Doc.mem_iff_ne_none.1 hk hv
  | some v =>
    exact Std.ExtTreeMap.getElem?_ofList_of_mem (Std.compare_eq_iff_eq.2 rfl) Std.ExtTreeMap.distinct_keys_toList
      (Std.ExtTreeMap.mem_toList_iff_getElem?_eq_some.2 hv)

/-- `dict.update`: the entries of the second argument win. -/
theorem getElem?_update (d e : Doc) (k : String) : (d ∪ e)[k]? = e[k]?.or d[k]? :=
  Std.ExtTreeMap.getElem?_union

/-- `d.get(k, default)`. -/
def get (d : Doc) (k : String) (default : Value) : Value := d[k]?.getD default

end Doc

end Ollog

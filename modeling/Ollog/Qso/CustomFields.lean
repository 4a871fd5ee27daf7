import Ollog.Qso.Model

/-!
# Custom fields

A user can give the eight "other" fields of a QSO names of their own, and have their values
trimmed and upper-cased.  `normalizeCustomQsoFields` checks such a configuration, and every use of
it goes through that check again; what the check guarantees of the names it lets through is
`CustomQSOField.WellNamed`.
-/

set_option autoImplicit false

namespace Ollog

open Effects

/-- `CustomQSOField`. -/
structure CustomQSOField where
  slot : Int
  label : String
  adifName : String
  enabled : Bool := false
  fillBehavior : String := "none"
  forceUppercase : Bool := false
  deriving DecidableEq, Repr

/-- The part of a `User` that a QSO is stamped with and routed by. -/
structure User where
  username : String
  callsign : String
  stationCallsign : Option String := none
  myGridsquare : Option String := none
  myRig : Option String := none
  myAntenna : Option String := none
  /-- The power in watts, as `str` writes the float. -/
  txPwr : Option String := none
  customQsoFields : List CustomQSOField := []
  deriving DecidableEq, Repr

/-! ## Checking a configuration -/

/-- `FILL_BEHAVIORS`. -/
def fillBehaviors : List String := ["none", "previous_qso", "previous_same_call"]

/-- `PROTECTED_ADIF_NAMES`. -/
def protectedAdifNames : List String :=
  ["_OPERATOR", "_DELETED", "_ID", "ID", "REVISION_ID", "_CREATED_AT", "CREATED_AT", "QSO_DATE_UTC",
    "ROWHASH", "ROW_HASH", "APP_OLLOG_TOKEN"]

/-- A character of an ADIF name: `[A-Z0-9_]`. -/
def adifNameChar (c : Char) : Bool := charRange 'A' 'Z' c || charRange '0' '9' c || c == '_'

/-- `ADIF_NAME_RE`, for a name without white space at its ends. -/
def isAdifName (name : String) : Bool := !name.toList.isEmpty && name.toList.all adifNameChar

/-- `default_custom_qso_fields`. -/
def defaultCustomQsoFields : List CustomQSOField :=
  (List.range' 1 8).map fun slot ↦
    { slot := slot, label := "Other " ++ toString slot, adifName := "OTHER_" ++ toString slot }

theorem nameChars_of_isAdifName {name : String} (h : isAdifName name = true) :
    name.toList ≠ [] ∧ ∀ c ∈ name.toList, adifNameChar c = true := by
  rw [isAdifName, Bool.and_eq_true, List.all_eq_true] at h
  exact ⟨by simpa using h.1, h.2⟩

/-- What holds of the capitals, the digits and the underscore holds of the characters of a name. -/
theorem forall_adifNameChar {P : Char → Prop} [DecidablePred P]
    (h : ("ABCDEFGHIJKLMNOPQRSTUVWXYZ0123456789_".toList.all fun c ↦ decide (P c)) = true) {c : Char}
    (hc : adifNameChar c = true) : P c := by
  have hall : ∀ n < 128, adifNameChar (Char.ofNat n) = true →
      Char.ofNat n ∈ "ABCDEFGHIJKLMNOPQRSTUVWXYZ0123456789_".toList := by decide +kernel
  have hlt : c.toNat < 128 := by
    simp only [adifNameChar, charRange, Bool.or_eq_true, Bool.and_eq_true, decide_eq_true_eq,
      beq_iff_eq] at hc
    obtain (⟨-, h⟩ | ⟨-, h⟩) | rfl := hc
    · exact Nat.lt_of_le_of_lt h (by decide)
    · exact Nat.lt_of_le_of_lt h (by decide)
    · decide
  have hmem := hall c.toNat hlt
  rw [Char.ofNat_toNat] at hmem
  exact of_decide_eq_true (List.all_eq_true.1 h c (hmem hc))

section Normalize

variable [UnicodeData]

/-- A name in capitals is neither stripped nor upper-cased. -/
theorem upper_of_isAdifName {name : String} (h : isAdifName name = true) : upper name = name := by
  rw [upper, upperChars_eq_self fun c hc ↦
    forall_adifNameChar (P := fun c ↦ c.toNat < 128 ∧ c.toUpper = c) (by decide)
      ((nameChars_of_isAdifName h).2 c hc), String.ofList_toList]

omit [UnicodeData] in
theorem strip_of_isAdifName {name : String} (h : isAdifName name = true) : strip name = name := by
  rw [strip, stripChars_eq_self fun c hc ↦
    forall_adifNameChar (P := fun c ↦ isSpace c = false) (by decide)
      ((nameChars_of_isAdifName h).2 c hc), String.ofList_toList]

/-- The ADIF name a submitted field asks for. -/
def submittedAdifName (field : CustomQSOField) : String :=
  let name := upper (strip field.adifName)
  if name = "" then "OTHER_" ++ toString field.slot else name

/-- The label of a submitted field. -/
def submittedLabel (field : CustomQSOField) : String :=
  let label := strip field.label
  if label = "" then "Other " ++ toString field.slot else label

/-- One round of `normalize_custom_qso_fields`: check an item and put it into its slot. -/
def normalizeItem (bySlot : List CustomQSOField) (field : CustomQSOField) :
    Except PyErr (List CustomQSOField) :=
  if field.slot < 1 ∨ 8 < field.slot then
    .error (.valueError "Custom QSO field slot must be between 1 and 8")
  else if !isAdifName (submittedAdifName field) then
    .error (.valueError ("Invalid ADIF field name: " ++ reprText field.adifName))
  else if submittedAdifName field ∈ protectedAdifNames then
    .error (.valueError
      ("Protected ADIF field name cannot be used: " ++ submittedAdifName field))
  else if field.fillBehavior ∉ fillBehaviors then
    .error (.valueError ("Invalid custom field fill behavior: " ++ reprText field.fillBehavior))
  else .ok (bySlot.map fun old ↦
    if old.slot = field.slot then
      { field with label := submittedLabel field, adifName := submittedAdifName field }
    else old)

/-- `normalize_custom_qso_fields`. -/
def normalizeCustomQsoFields (fields : List CustomQSOField) :
    Except PyErr (List CustomQSOField) := do
  let bySlot ← fields.foldlM normalizeItem defaultCustomQsoFields
  let names := bySlot.map (·.adifName)
  match (names.filter fun name ↦ 1 < names.count name).insertionSort (· ≤ ·) with
  | [] => .ok bySlot
  | name :: _ => .error (.valueError ("Duplicate custom ADIF field name: " ++ name))

/-- `custom_fields_for_user`. -/
def customFieldsForUser (user : Option User) : Except PyErr (List CustomQSOField) :=
  normalizeCustomQsoFields ((user.map (·.customQsoFields)).getD [])

/-- `enabled_custom_fields_for_user`. -/
def enabledCustomFieldsForUser (user : Option User) : Except PyErr (List CustomQSOField) := do
  return (← customFieldsForUser user).filter (·.enabled)

/-- The value of a custom field after `strip`, and `upper` where the field asks for it. -/
def normalizeCustomValue (field : CustomQSOField) (value : Value) : Value :=
  let text := strip value.pyStr
  .str (if field.forceUppercase then upper text else text)

/-- One round of `apply_custom_field_normalization`. -/
def normalizeCustomField (record : Doc) (field : CustomQSOField) : Doc :=
  match record[field.adifName]? with
  | none | some .null => record
  | some v => record.insert field.adifName (normalizeCustomValue field v)

/-- `apply_custom_field_normalization`. -/
def applyCustomFieldNormalization (record : Doc) (user : Option User) : Except PyErr Doc := do
  return (← enabledCustomFieldsForUser user).foldl normalizeCustomField record

end Normalize

/-! ## What the check guarantees -/

/-- A name as the check lets it through. -/
def CustomQSOField.WellNamed (field : CustomQSOField) : Prop :=
  isAdifName field.adifName = true ∧ field.adifName ∉ protectedAdifNames

theorem wellNamed_of_default {field : CustomQSOField} (h : field ∈ defaultCustomQsoFields) :
    field.WellNamed := by
  revert field
  unfold CustomQSOField.WellNamed
  decide

section

variable [UnicodeData]

/-- A round of the check keeps every name well formed. -/
theorem wellNamed_of_normalizeItem {bySlot bySlot' : List CustomQSOField} {field : CustomQSOField}
    (h : normalizeItem bySlot field = .ok bySlot') (hbefore : ∀ f ∈ bySlot, f.WellNamed) :
    ∀ f ∈ bySlot', f.WellNamed := by
  unfold normalizeItem at h
  split at h
  · cases h
  split at h
  · cases h
  rename_i hname
  split at h
  · cases h
  rename_i hprotected
  split at h
  · cases h
  cases h
  have hname' : isAdifName (submittedAdifName field) = true := by simpa using hname
  intro f hf
  obtain ⟨old, hold, rfl⟩ := List.mem_map.1 hf
  split
  · dsimp only [CustomQSOField.WellNamed]
    exact ⟨hname', hprotected⟩
  · exact hbefore old hold

/-- **Every custom field in use has a well-formed, unprotected name.** -/
theorem wellNamed_of_enabled {user : Option User} {fields : List CustomQSOField}
    (h : enabledCustomFieldsForUser user = .ok fields) : ∀ f ∈ fields, f.WellNamed := by
  obtain ⟨all, hall, hfields⟩ := bind_eq_ok.1 h
  obtain ⟨bySlot, hfold, hall⟩ := bind_eq_ok.1 hall
  have hslots : ∀ f ∈ bySlot, f.WellNamed :=
    foldlM_invariant (fun bySlot ↦ ∀ f ∈ bySlot, f.WellNamed)
      (fun _ _ _ _ ↦ wellNamed_of_normalizeItem) hfold fun _ ↦ wellNamed_of_default
  dsimp only at hall
  split at hall
  · cases hall
    cases hfields
    exact fun f hf ↦ hslots f (List.mem_filter.1 hf).1
  · cases hall

/-- A round of the check leaves every field in its slot. -/
theorem slots_of_normalizeItem {bySlot bySlot' : List CustomQSOField} {field : CustomQSOField}
    (h : normalizeItem bySlot field = .ok bySlot') :
    bySlot'.map (·.slot) = bySlot.map (·.slot) := by
  unfold normalizeItem at h
  split at h
  · cases h
  split at h
  · cases h
  split at h
  · cases h
  split at h
  · cases h
  cases h
  rw [List.map_map]
  refine List.map_congr_left fun old _ ↦ ?_
  dsimp only [Function.comp_apply]
  split
  · rename_i hslot
    exact hslot.symm
  · rfl

/-- **The custom fields of a user** are one for each of the eight slots, in order. -/
theorem slots_of_customFields {user : Option User} {fields : List CustomQSOField}
    (h : customFieldsForUser user = .ok fields) : fields.map (·.slot) = [1, 2, 3, 4, 5, 6, 7, 8] := by
  obtain ⟨bySlot, hfold, hfields⟩ := bind_eq_ok.1 h
  have hslots : bySlot.map (·.slot) = [1, 2, 3, 4, 5, 6, 7, 8] :=
    foldlM_invariant (fun bySlot ↦ bySlot.map (·.slot) = [1, 2, 3, 4, 5, 6, 7, 8])
      (fun _ _ _ _ h hbefore ↦ (slots_of_normalizeItem h).trans hbefore) hfold (by decide)
  dsimp only at hfields
  split at hfields
  · cases hfields
    exact hslots
  · cases hfields

omit [UnicodeData] in
/-- The check for names that occur twice finds none if there are none. -/
theorem insertionSort_duplicates_eq_nil {names : List String} :
    (names.filter fun name ↦ 1 < names.count name).insertionSort (· ≤ ·) = [] ↔ names.Nodup := by
  rw [List.nodup_iff_count_le_one]
  constructor
  · intro hnone name
    by_contra hcount
    have hmem : name ∈ names :=
      List.count_pos_iff.1 (Nat.lt_trans Nat.zero_lt_one (Nat.not_le.1 hcount))
    have htwice : name ∈ names.filter fun name ↦ 1 < names.count name :=
      List.mem_filter.2 ⟨hmem, decide_eq_true (Nat.not_le.1 hcount)⟩
    have hsorted := (List.mem_insertionSort (· ≤ ·)).2 htwice
    rw [hnone] at hsorted
    exact absurd hsorted List.not_mem_nil
  · intro hcount
    have hnone : (names.filter fun name ↦ 1 < names.count name) = [] :=
      List.filter_eq_nil_iff.2 fun name _ ↦ by simpa using hcount name
    rw [hnone, List.insertionSort_nil]

/-- **No two custom fields of a user have one name.** -/
theorem nodup_names_of_customFields {user : Option User} {fields : List CustomQSOField}
    (h : customFieldsForUser user = .ok fields) : (fields.map (·.adifName)).Nodup := by
  obtain ⟨bySlot, -, hfields⟩ := bind_eq_ok.1 h
  dsimp only at hfields
  split at hfields
  · rename_i hnone
    cases hfields
    exact insertionSort_duplicates_eq_nil.1 hnone
  · cases hfields

/-! ## What the normalisation changes -/

/-- What a record may look like after normalisation: a field keeps its value, or has a name a
custom field may have and held something that is now a text. -/
def NormalizedFrom (record result : Doc) : Prop :=
  ∀ k, result[k]? = record[k]? ∨
    (isAdifName k = true ∧ k ∉ protectedAdifNames) ∧
      (∃ v, record[k]? = some v ∧ v ≠ .null) ∧ ∃ s, result[k]? = some (.str s)

theorem normalizedFrom_normalizeCustomField {record result : Doc} {field : CustomQSOField}
    (hfield : field.WellNamed) (h : NormalizedFrom record result) :
    NormalizedFrom record (normalizeCustomField result field) := by
  intro k
  rw [normalizeCustomField]
  split
  · exact h k
  · exact h k
  rename_i v hnull hv
  by_cases hk : k = field.adifName
  · subst hk
    refine .inr ⟨hfield, ?_, _, by rw [Doc.getElem?_insert, if_pos rfl, normalizeCustomValue]⟩
    obtain hsame | ⟨-, hheld, -⟩ := h field.adifName
    · exact ⟨v, by rw [← hsame, hv], hnull⟩
    · exact hheld
  · rw [Doc.getElem?_insert, if_neg hk]
    exact h k

/-- **Normalisation changes values of custom fields only**, and only into texts. -/
theorem normalizedFrom_of_apply {record result : Doc} {user : Option User}
    (h : applyCustomFieldNormalization record user = .ok result) :
    NormalizedFrom record result := by
  obtain ⟨fields, hfields, hresult⟩ := bind_eq_ok.1 h
  cases hresult
  have hnames := wellNamed_of_enabled hfields
  clear h hfields
  have hinv : ∀ result, NormalizedFrom record result →
      NormalizedFrom record (fields.foldl normalizeCustomField result) := by
    induction fields with
    | nil => exact fun _ h ↦ h
    | cons field fields ih =>
      intro result h
      rw [List.foldl_cons]
      exact ih (fun f hf ↦ hnames f (List.mem_cons_of_mem _ hf)) _
        (normalizedFrom_normalizeCustomField (hnames field (List.mem_cons_self ..)) h)
  exact hinv record fun k ↦ .inl rfl

/-- Normalisation neither adds nor removes fields. -/
theorem mem_apply_iff {record result : Doc} {user : Option User}
    (h : applyCustomFieldNormalization record user = .ok result) {k : String} :
    k ∈ result ↔ k ∈ record := by
  rw [Doc.mem_iff_ne_none, Doc.mem_iff_ne_none]
  obtain hsame | ⟨-, ⟨v, hv, -⟩, s, hs⟩ := normalizedFrom_of_apply h k
  · rw [hsame]
  · simp [hv, hs]

end

end Ollog

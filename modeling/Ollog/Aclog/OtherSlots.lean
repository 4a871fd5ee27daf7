import Ollog.Aclog.Client

/-!
# The numbered fields of a contact

ACLog calls its eight free fields `OTHER_1` to `OTHER_8`, and a user may give each slot a name.
`mapOtherSlotsToCustomFields` gives the values the names of the user, one slot after the other.
Since a name may itself be one of `OTHER_1` to `OTHER_8`, the order matters: a value that is moved to
a slot whose turn is still to come is moved on.  `mapOtherSlots_isRenamed_iff` says that nothing else
goes wrong.
-/

set_option autoImplicit false

namespace Ollog

open Effects OrderedDict

/-- The name ACLog has for the field in a slot. -/
def CustomQSOField.slotKey (field : CustomQSOField) : String := "OTHER_" ++ toString field.slot

/-- One round of the loop of `_map_other_slots_to_custom_fields`. -/
def mapSlot (mapped : Fields) (field : CustomQSOField) : Fields :=
  match mapped.get field.slotKey with
  | none => mapped
  | some value =>
    if field.adifName ≠ field.slotKey then
      (mapped.erase field.slotKey).set field.adifName value
    else mapped

section

variable [UnicodeData]

/-- `_map_other_slots_to_custom_fields`. -/
def mapOtherSlotsToCustomFields (record : Fields) (user : User) : Except PyErr Fields := do
  return (← customFieldsForUser (some user)).foldl mapSlot record

end

/-! ## Moving values -/

/-- What the field in a slot is called before and after. -/
def slotNames (field : CustomQSOField) : String × String := (field.slotKey, field.adifName)

/-- A round of the loop moves a value from one name to another. -/
theorem mapSlot_eq_move (mapped : Fields) (field : CustomQSOField) :
    mapSlot mapped field = mapped.move (slotNames field) := by
  rw [mapSlot, move, slotNames]
  cases mapped.get field.slotKey with
  | none => rfl
  | some value => exact ite_not ..

theorem foldl_mapSlot (fields : List CustomQSOField) (record : Fields) :
    fields.foldl mapSlot record = (fields.map slotNames).foldl move record := by
  rw [List.foldl_map]
  exact congrArg (fun f ↦ fields.foldl f record)
    (funext fun mapped ↦ funext fun field ↦ mapSlot_eq_move mapped field)

/-- The names ACLog has for its free fields. -/
def otherNames : List String :=
  ["OTHER_1", "OTHER_2", "OTHER_3", "OTHER_4", "OTHER_5", "OTHER_6", "OTHER_7", "OTHER_8"]

section

variable [UnicodeData]

theorem slotKeys_of_customFields {user : Option User} {fields : List CustomQSOField}
    (h : customFieldsForUser user = .ok fields) : fields.map (·.slotKey) = otherNames := by
  have hkeys : fields.map (·.slotKey) =
      (fields.map (·.slot)).map fun slot ↦ "OTHER_" ++ toString slot := by
    rw [List.map_map]
    rfl
  rw [hkeys, slots_of_customFields h]
  decide

/-! ## All slots at once -/

/-- The record in which the value of every slot has the name of that slot: a free field that no slot
is called by is gone, and every other field has not changed. -/
structure IsRenamed (fields : List CustomQSOField) (record result : Fields) : Prop where
  slot : ∀ field ∈ fields, result.get field.adifName = record.get field.slotKey
  freed : ∀ k ∈ otherNames, k ∉ fields.map (·.adifName) → result.get k = none
  frame : ∀ k ∉ otherNames, k ∉ fields.map (·.adifName) → result.get k = record.get k

/-- No value is moved to a slot whose turn is still to come. -/
def NoneForward (fields : List CustomQSOField) (record : Fields) : Prop :=
  fields.Pairwise fun field later ↦
    (record.get field.slotKey).isSome = true → field.adifName ≠ later.slotKey

theorem isRenamed_iff_renamed {user : Option User} {fields : List CustomQSOField}
    (h : customFieldsForUser user = .ok fields) (record result : Fields) :
    IsRenamed fields record result ↔ Renamed (fields.map slotNames) record result := by
  have hsources : (fields.map slotNames).map Prod.fst = otherNames := by
    rw [List.map_map]
    exact slotKeys_of_customFields h
  have htargets : (fields.map slotNames).map Prod.snd = fields.map (·.adifName) := by
    rw [List.map_map]
    rfl
  rw [Renamed, hsources, htargets, List.forall_mem_map]
  refine ⟨fun h ↦ ⟨h.slot, fun k hk ↦ ?_⟩, fun ⟨hslot, hrest⟩ ↦ ⟨hslot, fun k hother hk ↦ ?_,
    fun k hother hk ↦ ?_⟩⟩
  · split
    · rename_i hother
      exact h.freed k hother hk
    · rename_i hother
      exact h.frame k hother hk
  · rw [hrest k hk, if_pos hother]
  · rw [hrest k hk, if_neg hother]

/-- **Mapping the slots renames them all at once** if and only if no value is moved to a slot whose
turn is still to come. -/
theorem mapOtherSlots_isRenamed_iff {user : User} {fields : List CustomQSOField} {record : Fields}
    (hfields : customFieldsForUser (some user) = .ok fields)
    (hfree : ∀ field ∈ fields, field.adifName ∉ otherNames → record.get field.adifName = none) :
    (∃ result, mapOtherSlotsToCustomFields record user = .ok result ∧
      IsRenamed fields record result) ↔ NoneForward fields record := by
  have hresult : mapOtherSlotsToCustomFields record user =
      .ok ((fields.map slotNames).foldl move record) := by
    rw [← foldl_mapSlot]
    exact bind_eq_ok.2 ⟨fields, hfields, rfl⟩
  have hsources : (fields.map slotNames).map Prod.fst = otherNames := by
    rw [List.map_map]
    exact slotKeys_of_customFields hfields
  have htargets : ((fields.map slotNames).map Prod.snd).Nodup := by
    rw [List.map_map]
    exact nodup_names_of_customFields hfields
  constructor
  · rintro ⟨result, hok, hrenamed⟩
    obtain rfl := Except.ok.inj (hresult.symm.trans hok)
    rw [isRenamed_iff_renamed hfields] at hrenamed
    refine List.pairwise_iff_forall_sublist.2 fun {field later} hsub hsome hname ↦ ?_
    exact not_renamed_foldl_move (hsub.map slotNames) htargets
      (Option.isSome_iff_ne_none.1 hsome) hname hrenamed
  · intro hnone
    refine ⟨_, hresult, (isRenamed_iff_renamed hfields _ _).2 (renamed_foldl_move ?_ htargets ?_ ?_)⟩
    · rw [hsources]
      decide
    · rw [hsources]
      exact List.forall_mem_map.2 hfree
    · refine List.pairwise_map.2 (hnone.imp fun {field later} h hsome ↦ h ?_)
      exact Option.isSome_iff_ne_none.2 hsome

end

/-! ## A value that is moved on -/

section

attribute [local instance] UnicodeData.ascii

/-- A user whose first slot is called by the name of the second one. -/
def forwardUser : User where
  username := "k1abc"
  callsign := "K1ABC"
  customQsoFields := [{ slot := 1, label := "", adifName := "OTHER_2" },
    { slot := 2, label := "", adifName := "SKCC" }]

/-- The fields of that user. -/
def forwardFields : List CustomQSOField :=
  [{ slot := 1, label := "Other 1", adifName := "OTHER_2" },
    { slot := 2, label := "Other 2", adifName := "SKCC" }] ++ defaultCustomQsoFields.drop 2

/-- A contact with both slots. -/
def forwardRecord : Fields := [("CALL", "W1AW"), ("OTHER_1", "A"), ("OTHER_2", "B")]

theorem customFields_forwardUser : customFieldsForUser (some forwardUser) = .ok forwardFields := by
  decide +kernel

/-- The value of the first slot goes through the second one, whose value is lost. -/
theorem not_isRenamed_forwardRecord :
    ∃ fields, customFieldsForUser (some forwardUser) = .ok fields ∧
      (∀ field ∈ fields, field.adifName ∉ otherNames →
        forwardRecord.get field.adifName = none) ∧
      mapOtherSlotsToCustomFields forwardRecord forwardUser =
        .ok [("CALL", "W1AW"), ("SKCC", "A")] ∧
      ¬ IsRenamed fields forwardRecord [("CALL", "W1AW"), ("SKCC", "A")] := by
  refine ⟨forwardFields, customFields_forwardUser, by decide +kernel, by decide +kernel,
    fun h ↦ ?_⟩
  exact absurd (h.slot { slot := 1, label := "Other 1", adifName := "OTHER_2" }
    (List.mem_cons_self ..)) (by decide +kernel)

/-- Without a value in the first slot the second one is renamed. -/
theorem isRenamed_secondSlot : ∃ result,
    mapOtherSlotsToCustomFields [("CALL", "W1AW"), ("OTHER_2", "B")] forwardUser = .ok result ∧
      IsRenamed forwardFields [("CALL", "W1AW"), ("OTHER_2", "B")] result :=
  (mapOtherSlots_isRenamed_iff customFields_forwardUser (by decide +kernel)).2 (by
    rw [NoneForward]
    decide +kernel)

end

end Ollog

import Ollog.Qso.CustomFields

/-!
# The configuration of the custom fields

`normalize_custom_qso_fields` starts from the eight default fields and puts each submitted field
into its slot.  So what ends up in a slot is the last field that was submitted for it, or the
default (`latest`), and every field that is let through is in a form that the function leaves alone
(`Stable`).  From this it follows that a configuration is canonical
(`normalizeCustomQsoFields_canonical`).
-/

set_option autoImplicit false

namespace Ollog

open Effects

section

variable [UnicodeData]

/-- A submitted field in the form in which it is kept. -/
def normalizedField (field : CustomQSOField) : CustomQSOField :=
  { field with label := submittedLabel field, adifName := submittedAdifName field }

@[simp] theorem slot_normalizedField (field : CustomQSOField) :
    (normalizedField field).slot = field.slot := by rw [normalizedField]

@[simp] theorem fillBehavior_normalizedField (field : CustomQSOField) :
    (normalizedField field).fillBehavior = field.fillBehavior := by rw [normalizedField]

@[simp] theorem adifName_normalizedField (field : CustomQSOField) :
    (normalizedField field).adifName = submittedAdifName field := by rw [normalizedField]

@[simp] theorem label_normalizedField (field : CustomQSOField) :
    (normalizedField field).label = submittedLabel field := by rw [normalizedField]

/-- A field that passes the checks. -/
structure Acceptable (field : CustomQSOField) : Prop where
  slot : 1 ≤ field.slot ∧ field.slot ≤ 8
  isName : isAdifName (submittedAdifName field) = true
  unprotected : submittedAdifName field ∉ protectedAdifNames
  fill : field.fillBehavior ∈ fillBehaviors

/-- What a submitted field does to the field that is in some slot. -/
def place (old field : CustomQSOField) : CustomQSOField :=
  if old.slot = field.slot then normalizedField field else old

/-- What is in the slot of a field after some fields have been submitted. -/
def latest (submitted : List CustomQSOField) (old : CustomQSOField) : CustomQSOField :=
  submitted.foldl place old

/-! ## The loop -/

theorem normalizeItem_eq_ok {bySlot bySlot' : List CustomQSOField} {field : CustomQSOField} :
    normalizeItem bySlot field = .ok bySlot' ↔
      Acceptable field ∧ bySlot' = bySlot.map fun old ↦ place old field := by
  rw [normalizeItem]
  split
  · rename_i hslot
    refine ⟨fun h ↦ (nomatch h), fun ⟨h, _⟩ ↦ ?_⟩
    have := h.slot
    omega
  rename_i hslot
  split
  · rename_i hname
    refine ⟨fun h ↦ (nomatch h), fun ⟨h, _⟩ ↦ ?_⟩
    rw [h.isName] at hname
    cases hname
  rename_i hname
  split
  · rename_i hprotected
    exact ⟨fun h ↦ (nomatch h), fun ⟨h, _⟩ ↦ absurd hprotected h.unprotected⟩
  rename_i hprotected
  split
  · rename_i hfill
    exact ⟨fun h ↦ (nomatch h), fun ⟨h, _⟩ ↦ absurd h.fill hfill⟩
  rename_i hfill
  have hacceptable : Acceptable field :=
    ⟨by omega, by simpa using hname, hprotected, not_not.1 hfill⟩
  exact ⟨fun h ↦ ⟨hacceptable, (Except.ok.inj h).symm⟩, fun ⟨_, h⟩ ↦ congrArg Except.ok h.symm⟩

theorem valueError_of_normalizeItem {bySlot : List CustomQSOField} {field : CustomQSOField}
    {exc : PyErr} (h : normalizeItem bySlot field = .error exc) : ∃ msg, exc = .valueError msg := by
  rw [normalizeItem] at h
  split at h
  · exact ⟨_, (Except.error.inj h).symm⟩
  split at h
  · exact ⟨_, (Except.error.inj h).symm⟩
  split at h
  · exact ⟨_, (Except.error.inj h).symm⟩
  split at h
  · exact ⟨_, (Except.error.inj h).symm⟩
  · cases h

/-- **The loop** goes through if every field is acceptable, and ends in a `ValueError` if not. -/
theorem foldlM_normalizeItem (submitted bySlot : List CustomQSOField) :
    ((¬ ∀ field ∈ submitted, Acceptable field) ∧
        ∃ msg, submitted.foldlM normalizeItem bySlot = .error (.valueError msg)) ∨
      (∀ field ∈ submitted, Acceptable field) ∧
        submitted.foldlM normalizeItem bySlot = .ok (bySlot.map (latest submitted)) := by
  induction submitted generalizing bySlot with
  | nil =>
    refine .inr ⟨fun _ h ↦ absurd h List.not_mem_nil, ?_⟩
    exact congrArg Except.ok (List.map_id bySlot).symm
  | cons field submitted ih =>
    rw [List.foldlM_cons]
    cases hitem : normalizeItem bySlot field with
    | error exc =>
      obtain ⟨msg, rfl⟩ := valueError_of_normalizeItem hitem
      refine .inl ⟨fun hall ↦ ?_, msg, rfl⟩
      cases hitem.symm.trans
        (normalizeItem_eq_ok.2 ⟨hall field (List.mem_cons_self ..), rfl⟩)
    | ok bySlot' =>
      obtain ⟨hacceptable, rfl⟩ := normalizeItem_eq_ok.1 hitem
      obtain ⟨hnot, msg, herror⟩ | ⟨hall, hok⟩ := ih (bySlot.map fun old ↦ place old field)
      · exact .inl ⟨fun hall ↦ hnot (List.forall_mem_cons.1 hall).2, msg, herror⟩
      · refine .inr ⟨List.forall_mem_cons.2 ⟨hacceptable, hall⟩, ?_⟩
        rw [List.map_map] at hok
        exact hok

/-! ## What is in a slot -/

theorem slot_place (old field : CustomQSOField) : (place old field).slot = old.slot := by
  rw [place]
  split
  · rename_i h
    rw [slot_normalizedField, h]
  · rfl

theorem slot_latest (submitted : List CustomQSOField) (old : CustomQSOField) :
    (latest submitted old).slot = old.slot := by
  induction submitted generalizing old with
  | nil => rfl
  | cons field submitted ih => exact (ih (place old field)).trans (slot_place old field)

/-- Nothing is submitted for a slot. -/
theorem latest_of_none {submitted : List CustomQSOField} {old : CustomQSOField}
    (h : ∀ field ∈ submitted, field.slot ≠ old.slot) : latest submitted old = old := by
  induction submitted with
  | nil => rfl
  | cons field submitted ih =>
    have hplace : place old field = old :=
      if_neg fun heq ↦ h field (List.mem_cons_self ..) heq.symm
    rw [latest, List.foldl_cons, hplace]
    exact ih fun f hf ↦ h f (List.mem_cons_of_mem _ hf)

/-- **The last field that is submitted for a slot** is what ends up there. -/
theorem latest_of_last {before after : List CustomQSOField} {old field : CustomQSOField}
    (hslot : old.slot = field.slot) (hafter : ∀ later ∈ after, later.slot ≠ field.slot) :
    latest (before ++ field :: after) old = normalizedField field := by
  have hplace : place (latest before old) field = normalizedField field :=
    if_pos ((slot_latest before old).trans hslot)
  rw [latest, List.foldl_append, List.foldl_cons]
  refine (congrArg (latest after) hplace).trans (latest_of_none fun later hlater ↦ ?_)
  rw [slot_normalizedField]
  exact hafter later hlater

/-- A slot has its default in it, or something that was submitted for it. -/
theorem latest_cases (submitted : List CustomQSOField) (old : CustomQSOField) :
    latest submitted old = old ∨
      ∃ field ∈ submitted, latest submitted old = normalizedField field := by
  induction submitted generalizing old with
  | nil => exact .inl rfl
  | cons field submitted ih =>
    have hcons : latest (field :: submitted) old = latest submitted (place old field) := rfl
    rw [hcons]
    obtain hsame | ⟨f, hf, heq⟩ := ih (place old field)
    · rw [hsame, place]
      split
      · exact .inr ⟨field, List.mem_cons_self .., rfl⟩
      · exact .inl rfl
    · exact .inr ⟨f, List.mem_cons_of_mem _ hf, heq⟩

/-! ## What the function leaves alone -/

/-- A field in the form in which it is kept. -/
def Stable (field : CustomQSOField) : Prop := Acceptable field ∧ normalizedField field = field

/-- A name in capitals is kept. -/
theorem submittedAdifName_of_isAdifName {field : CustomQSOField}
    (h : isAdifName field.adifName = true) : submittedAdifName field = field.adifName := by
  have hne : field.adifName ≠ "" := fun heq ↦ by
    rw [heq] at h
    exact absurd h (by decide)
  rw [submittedAdifName, strip_of_isAdifName h, upper_of_isAdifName h]
  exact if_neg hne

omit [UnicodeData] in
/-- So is a label without white space at its ends. -/
theorem submittedLabel_eq_self {field : CustomQSOField} (hstrip : strip field.label = field.label)
    (hne : field.label ≠ "") : submittedLabel field = field.label := by
  rw [submittedLabel, hstrip]
  exact if_neg hne

omit [UnicodeData] in
/-- A label that is kept is one that is kept. -/
theorem submittedLabel_spec {field : CustomQSOField} (hslot : 1 ≤ field.slot ∧ field.slot ≤ 8) :
    strip (submittedLabel field) = submittedLabel field ∧ submittedLabel field ≠ "" := by
  have hdefault : strip ("Other " ++ toString field.slot) = "Other " ++ toString field.slot ∧
      "Other " ++ toString field.slot ≠ "" := by
    have hcases : field.slot = 1 ∨ field.slot = 2 ∨ field.slot = 3 ∨ field.slot = 4 ∨
        field.slot = 5 ∨ field.slot = 6 ∨ field.slot = 7 ∨ field.slot = 8 := by omega
    obtain h | h | h | h | h | h | h | h := hcases <;> rw [h] <;> decide
  rw [submittedLabel]
  split
  · exact hdefault
  · rename_i hne
    exact ⟨strip_strip _, hne⟩

theorem stable_of_default {field : CustomQSOField} (h : field ∈ defaultCustomQsoFields) :
    Stable field := by
  have hrest : (1 ≤ field.slot ∧ field.slot ≤ 8) ∧ field.fillBehavior ∈ fillBehaviors ∧
      strip field.label = field.label ∧ field.label ≠ "" := by
    revert field
    decide
  obtain ⟨hslot, hfill, hstrip, hne⟩ := hrest
  obtain ⟨hname, hprotected⟩ := wellNamed_of_default h
  have hadif := submittedAdifName_of_isAdifName hname
  refine ⟨⟨hslot, ?_, ?_, hfill⟩, ?_⟩
  · rw [hadif]
    exact hname
  · rw [hadif]
    exact hprotected
  · rw [normalizedField, hadif, submittedLabel_eq_self hstrip hne]

theorem stable_of_acceptable {field : CustomQSOField} (h : Acceptable field) :
    Stable (normalizedField field) := by
  obtain ⟨hslot, hname, hprotected, hfill⟩ := h
  obtain ⟨hstrip, hne⟩ := submittedLabel_spec hslot
  rw [← adifName_normalizedField] at hname hprotected
  rw [← label_normalizedField] at hstrip hne
  rw [← slot_normalizedField] at hslot
  rw [← fillBehavior_normalizedField] at hfill
  generalize normalizedField field = kept at *
  have hadif := submittedAdifName_of_isAdifName hname
  refine ⟨⟨hslot, ?_, ?_, hfill⟩, ?_⟩
  · rw [hadif]
    exact hname
  · rw [hadif]
    exact hprotected
  · rw [normalizedField, hadif, submittedLabel_eq_self hstrip hne]

theorem stable_latest {submitted : List CustomQSOField} (h : ∀ field ∈ submitted, Acceptable field)
    {old : CustomQSOField} (hold : old ∈ defaultCustomQsoFields) : Stable (latest submitted old) := by
  obtain hsame | ⟨field, hfield, heq⟩ := latest_cases submitted old
  · rw [hsame]
    exact stable_of_default hold
  · rw [heq]
    exact stable_of_acceptable (h field hfield)

theorem Stable.wellNamed {field : CustomQSOField} (h : Stable field) : field.WellNamed := by
  have hadif : submittedAdifName field = field.adifName := by
    rw [← adifName_normalizedField, h.2]
  constructor
  · rw [← hadif]
    exact h.1.isName
  · rw [← hadif]
    exact h.1.unprotected

/-! ## Canonical configurations -/

/-- A configuration is the canonical one for some submitted fields. -/
structure CanonicalFor (submitted fields : List CustomQSOField) : Prop where
  slots : fields.map (·.slot) = [1, 2, 3, 4, 5, 6, 7, 8]
  names : ∀ field ∈ fields, field.WellNamed
  distinct : (fields.map (·.adifName)).Nodup
  /-- Every submitted slot has the last field that was submitted for it. -/
  last : ∀ before field after, submitted = before ++ field :: after →
    (∀ later ∈ after, later.slot ≠ field.slot) → normalizedField field ∈ fields
  /-- The others have their default. -/
  others : ∀ field ∈ defaultCustomQsoFields, (∀ f ∈ submitted, f.slot ≠ field.slot) →
    field ∈ fields

/-- What is accepted is what is in the slots, if no name occurs twice. -/
theorem normalizeCustomQsoFields_eq_ok {submitted fields : List CustomQSOField} :
    normalizeCustomQsoFields submitted = .ok fields ↔ (∀ field ∈ submitted, Acceptable field) ∧
      fields = defaultCustomQsoFields.map (latest submitted) ∧ (fields.map (·.adifName)).Nodup := by
  rw [normalizeCustomQsoFields, bind_eq_ok]
  obtain ⟨hnot, msg, herror⟩ | ⟨hacceptable, hok⟩ :=
    foldlM_normalizeItem submitted defaultCustomQsoFields
  · rw [herror]
    exact iff_of_false (fun ⟨_, h, _⟩ ↦ (nomatch h)) fun h ↦ hnot h.1
  · rw [hok, iff_true_intro hacceptable, true_and]
    constructor
    · rintro ⟨bySlot, hbySlot, hfields⟩
      cases hbySlot
      dsimp only at hfields
      split at hfields
      · rename_i hnone
        cases hfields
        exact ⟨rfl, insertionSort_duplicates_eq_nil.1 hnone⟩
      · cases hfields
    · rintro ⟨rfl, hnodup⟩
      refine ⟨_, rfl, ?_⟩
      dsimp only
      rw [insertionSort_duplicates_eq_nil.2 hnodup]

theorem canonicalFor_of_ok {submitted fields : List CustomQSOField}
    (h : normalizeCustomQsoFields submitted = .ok fields) : CanonicalFor submitted fields := by
  obtain ⟨hacceptable, rfl, hnodup⟩ := normalizeCustomQsoFields_eq_ok.1 h
  have hslots : defaultCustomQsoFields.map (·.slot) = [1, 2, 3, 4, 5, 6, 7, 8] := by decide
  refine ⟨?_, ?_, hnodup, ?_, ?_⟩
  · rw [List.map_map, ← hslots]
    exact List.map_congr_left fun old _ ↦ slot_latest submitted old
  · intro field hfield
    obtain ⟨old, hold, rfl⟩ := List.mem_map.1 hfield
    exact (stable_latest hacceptable hold).wellNamed
  · rintro before field after rfl hafter
    have hslot : field.slot ∈ defaultCustomQsoFields.map (·.slot) := by
      have hrange := (hacceptable field (by simp)).slot
      rw [hslots]
      simp only [List.mem_cons, List.not_mem_nil, or_false]
      omega
    obtain ⟨old, hold, heq⟩ := List.mem_map.1 hslot
    exact List.mem_map.2 ⟨old, hold, latest_of_last heq hafter⟩
  · intro field hfield hnone
    exact List.mem_map.2 ⟨field, hfield, latest_of_none hnone⟩

/-- **A configuration that is accepted** is accepted again, and stays as it is. -/
theorem normalizeCustomQsoFields_idempotent {submitted fields : List CustomQSOField}
    (h : normalizeCustomQsoFields submitted = .ok fields) :
    normalizeCustomQsoFields fields = .ok fields := by
  obtain ⟨hacceptable, hfields, hnodup⟩ := normalizeCustomQsoFields_eq_ok.1 h
  have hslots := (canonicalFor_of_ok h).slots
  have hstable : ∀ field ∈ fields, Stable field := by
    rw [hfields]
    intro field hfield
    obtain ⟨old, hold, rfl⟩ := List.mem_map.1 hfield
    exact stable_latest hacceptable hold
  refine normalizeCustomQsoFields_eq_ok.2
    ⟨fun field hfield ↦ (hstable field hfield).1, ?_, hnodup⟩
  rw [hfields]
  refine List.map_congr_left fun old hold ↦ ?_
  rw [← hfields]
  -- The field in the slot is the only one for it, and so the last.
  have hmem : latest submitted old ∈ fields := hfields ▸ List.mem_map_of_mem hold
  obtain ⟨before, after, hsplit⟩ := List.append_of_mem hmem
  have hafter : ∀ later ∈ after, later.slot ≠ (latest submitted old).slot := by
    have hdistinct : (fields.map (·.slot)).Nodup := by
      rw [hslots]
      decide
    rw [hsplit, List.map_append, List.map_cons] at hdistinct
    have hcons := (List.nodup_append.1 hdistinct).2.1
    intro later hlater heq
    exact (List.nodup_cons.1 hcons).1 (heq ▸ List.mem_map_of_mem hlater)
  rw [hsplit, latest_of_last (slot_latest submitted old).symm hafter]
  exact (hstable _ hmem).2.symm

/-- **Custom field configurations are canonical**: whatever is submitted, it is refused with a
`ValueError`, or a canonical configuration is returned, which is left alone from then on. -/
theorem normalizeCustomQsoFields_canonical (submitted : List CustomQSOField) :
    (∃ msg, normalizeCustomQsoFields submitted = .error (.valueError msg)) ∨
      ∃ fields, normalizeCustomQsoFields submitted = .ok fields ∧ CanonicalFor submitted fields ∧
        normalizeCustomQsoFields fields = .ok fields := by
  cases h : normalizeCustomQsoFields submitted with
  | ok fields =>
    exact .inr ⟨fields, rfl, canonicalFor_of_ok h, normalizeCustomQsoFields_idempotent h⟩
  | error exc =>
    obtain hfold | ⟨bySlot, -, hnames⟩ := bind_eq_error.1 h
    · obtain ⟨-, msg, herror⟩ | ⟨-, hok⟩ :=
        foldlM_normalizeItem submitted defaultCustomQsoFields
      · rw [herror] at hfold
        exact .inl ⟨msg, congrArg Except.error (Except.error.inj hfold).symm⟩
      · rw [hok] at hfold
        cases hfold
    · dsimp only at hnames
      split at hnames
      · cases hnames
      · exact .inl ⟨_, congrArg Except.error (Except.error.inj hnames).symm⟩

end

end Ollog

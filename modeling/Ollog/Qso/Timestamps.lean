import Ollog.Qso.Log

/-!
# The instant and its texts

A QSO keeps the instant of the contact twice: as the texts `QSO_DATE` and `TIME_ON`, which are shown
and exported, and as `qso_date_utc`, which is sorted by and searched.  Three writers compute the
second from the first.  `build_qso_dict` never stores one without the other.  The two patches do:
a REST body may hold `qso_date_utc` itself or an empty text, which is stored although it counts as
absent when the instant is recalculated, and the browser's form stores texts that do not parse.
`Request.KeepsInstant` rules out these three cases, and nothing else.
-/

set_option autoImplicit false

namespace Ollog

open Effects

section

variable [UnicodeData]

/-- The instant of a document is the one its texts give. -/
def SameInstant (d : Doc) : Prop :=
  ∀ s t, d["QSO_DATE"]? = some (.str s) → d["TIME_ON"]? = some (.str t) →
    ∃ dt, parseAdifDatetime (.str s) (.str t) = .ok dt ∧
      d["qso_date_utc"]? = some (.datetime dt.toStored)

/-- `SameInstant`, computed. -/
def sameInstant (d : Doc) : Bool :=
  match d["QSO_DATE"]?, d["TIME_ON"]? with
  | some (.str s), some (.str t) =>
    match parseAdifDatetime (.str s) (.str t) with
    | .ok dt => d["qso_date_utc"]? == some (.datetime dt.toStored)
    | .error _ => false
  | _, _ => true

theorem sameInstant_iff {d : Doc} : sameInstant d = true ↔ SameInstant d := by
  rw [sameInstant]
  split
  · rename_i s t hs ht
    split
    · rename_i dt hdt
      rw [beq_iff_eq]
      refine ⟨fun h s' t' hs' ht' ↦ ?_, fun h ↦ ?_⟩
      · obtain rfl := Value.str.inj (Option.some.inj (hs.symm.trans hs'))
        obtain rfl := Value.str.inj (Option.some.inj (ht.symm.trans ht'))
        exact ⟨dt, hdt, h⟩
      · obtain ⟨dt', hdt', h⟩ := h s t hs ht
        rw [hdt] at hdt'
        rw [h, Except.ok.inj hdt']
    · rename_i exc hexc
      refine ⟨fun h ↦ absurd h (by decide), fun h ↦ ?_⟩
      obtain ⟨dt, hdt, -⟩ := h s t hs ht
      rw [hexc] at hdt
      cases hdt
  · rename_i hnot
    exact ⟨fun _ s t hs ht ↦ absurd ht (hnot s t hs), fun _ ↦ rfl⟩

instance : DecidablePred SameInstant := fun _ ↦ decidable_of_iff _ sameInstant_iff

/-- The invariant of the documents of a log. -/
structure Coherent (d : Doc) : Prop where
  sameInstant : SameInstant d
  /-- There is an instant even where the texts are not texts. -/
  instant : ∃ dt, d["qso_date_utc"]? = some (.datetime dt)
  /-- No text is one that counts as absent. -/
  nonempty : ∀ k ∈ instantNames, d[k]? ≠ some (.str "")

/-! ## New documents -/

theorem coherent_newDoc {now : DateTime} {oid : ObjectId} {body qsoDict : Doc} {operator : String}
    {qso : QSO} (hbuilt : Built body operator qsoDict)
    (h : qsoFromInputDict now oid qsoDict = .ok qso) :
    Coherent (Doc.toStored (qsoToMongoDoc oid qso)) := by
  obtain ⟨date, time, dt, hdate, htime, hdt, hinstant⟩ := hbuilt.instant
  obtain ⟨⟨s, rfl, hs⟩, ⟨t, rfl, ht⟩, -⟩ := parseAdifDatetime_eq_ok hdt
  have htext : ∀ k ∉ aliasNames, k ∉ inputExcluded → k ∉ hiddenNames → ∀ s,
      qsoDict[k]? = some (.str s) →
      (Doc.toStored (qsoToMongoDoc oid qso))[k]? = some (.str s) := by
    intro k hk hex hhid s hs
    rw [Doc.getElem?_toStored, getElem?_newDoc_extra h hk, if_neg (not_or.2 ⟨hex, hhid⟩), hs]
    rfl
  have hs' := htext "QSO_DATE" (by decide) (by decide) (by decide) s hdate
  have ht' := htext "TIME_ON" (by decide) (by decide) (by decide) t htime
  have hdt' : (Doc.toStored (qsoToMongoDoc oid qso))["qso_date_utc"]? =
      some (.datetime dt.toStored) := by
    rw [Doc.getElem?_toStored, getElem?_newDoc h]
    simp only [String.reduceEq, if_true, if_false, Doc.get, hinstant, Option.getD_some]
    rfl
  refine ⟨fun s' t' hs'' ht'' ↦ ?_, ⟨_, hdt'⟩, fun k hk ↦ ?_⟩
  · obtain rfl := Value.str.inj (Option.some.inj (hs'.symm.trans hs''))
    obtain rfl := Value.str.inj (Option.some.inj (ht'.symm.trans ht''))
    exact ⟨dt, hdt, hdt'⟩
  · simp only [instantNames, List.mem_cons, List.not_mem_nil, or_false] at hk
    obtain rfl | rfl := hk
    · rw [hs']
      simpa using hs
    · rw [ht']
      simpa using ht

/-! ## Patches -/

/-- The fields of a body that a patch may apply to a QSO. -/
structure KeepsInstant (qso : QSO) (fields : Doc) : Prop where
  nonempty : ∀ k ∈ instantNames, fields[k]? ≠ some (.str "")
  underived : "qso_date_utc" ∈ fields → Recalculates qso fields

theorem getElem?_set (qso : QSO) (updates : Doc) {k : String} (hk : k ≠ "rowHash") :
    (Doc.toStored (withRowHash qso updates))[k]? = updates[k]?.map Value.toStored := by
  rw [Doc.getElem?_toStored, withRowHash, Doc.getElem?_insert, if_neg hk]

/-- A text of the patched document is the one the instant is recalculated from. -/
theorem patchedText_of_patched {now : DateTime} {old new fields updates : Doc} {qso : QSO}
    (hold : Coherent old) (hqso : qsoFromMongoDoc now old = .ok qso)
    (hkeeps : KeepsInstant qso fields) (hsame : ∀ k ∈ instantNames, updates[k]? = fields[k]?)
    (h : applySet (Doc.toStored (withRowHash qso updates)) old = .ok new) {k : String}
    (hk : k ∈ instantNames) {s : String} (hs : new[k]? = some (.str s)) :
    s ≠ "" ∧ patchedText qso fields k = some (.str s) ∧
      (k ∉ fields → old[k]? = some (.str s)) := by
  have hnames : ∀ k ∈ instantNames, PlainKey k ∧ k ≠ "rowHash" ∧ k ∉ declaredNames := by decide
  obtain ⟨hplain, hne, hdeclared⟩ := hnames k hk
  obtain hcases | ⟨-, w, hw, hcontainer⟩ := getElem?_applySet_cases h hplain
  · rw [hs, getElem?_set qso updates hne, hsame k hk] at hcases
    cases hv : fields[k]? with
    | some v =>
      rw [hv] at hcases
      obtain rfl := Value.toStored_eq_str (Option.some.inj hcases).symm
      have hnonempty : s ≠ "" := fun heq ↦ hkeeps.nonempty k hk (heq ▸ hv)
      refine ⟨hnonempty, ?_, fun hnot ↦ ?_⟩
      · rw [patchedText, hv, Value.orElse, if_pos (Value.truthy_str hnonempty)]
      · rw [Std.ExtTreeMap.getElem?_eq_none hnot] at hv
        cases hv
    | none =>
      rw [hv] at hcases
      have hold' : old[k]? = some (.str s) := hcases.symm
      refine ⟨fun heq ↦ hold.nonempty k hk (heq ▸ hold'), ?_, fun _ ↦ hold'⟩
      rw [patchedText, hv, Value.orElse, QSO.getElem?_modelDumpByName qso hdeclared,
        getElem?_modelExtra_instant hqso hk, hold']
  · rw [hs] at hw
    cases hw
    cases hcontainer

/-- **A patch that keeps to the rules leaves a coherent document.** -/
theorem coherent_patch {now : DateTime} {old new fields updates : Doc} {qso : QSO}
    (hold : Coherent old) (hqso : qsoFromMongoDoc now old = .ok qso)
    (hkeeps : KeepsInstant qso fields) (hupdates : recalculateDate qso fields = .ok updates)
    (h : applySet (Doc.toStored (withRowHash qso updates)) old = .ok new) : Coherent new := by
  obtain ⟨dt₀, hdt₀⟩ := hold.instant
  have hinstant : new["qso_date_utc"]? =
      (updates["qso_date_utc"]?.map Value.toStored).or old["qso_date_utc"]? := by
    rw [getElem?_applySet_scalar h (by decide) hdt₀ rfl, getElem?_set qso updates (by decide)]
  have hsame : ∀ k ∈ instantNames, updates[k]? = fields[k]? := by
    intro k hk
    have hne : ∀ k ∈ instantNames, k ≠ "qso_date_utc" := by decide
    obtain ⟨-, rfl⟩ | ⟨_, _, _, -, -, -, rfl⟩ := recalculateDate_cases hupdates
    · rfl
    · rw [Doc.getElem?_insert, if_neg (hne k hk)]
  have htext := fun {k} (hk : k ∈ instantNames) {s} ↦
    patchedText_of_patched hold hqso hkeeps hsame h hk (s := s)
  have hnonempty : ∀ k ∈ instantNames, new[k]? ≠ some (.str "") := fun k hk heq ↦
    (htext hk heq).1 rfl
  obtain ⟨hrecalc, rfl⟩ | ⟨date, time, dt, hdate, htime, hdt, rfl⟩ :=
    recalculateDate_cases hupdates
  · -- The instant is not recalculated, so it is not touched at all.
    rw [Std.ExtTreeMap.getElem?_eq_none (mt hkeeps.underived hrecalc), Option.map_none,
      Option.none_or] at hinstant
    refine ⟨fun s t hs ht ↦ ?_, ⟨dt₀, hinstant.trans hdt₀⟩, hnonempty⟩
    obtain ⟨hs₀, hdate, hs⟩ := htext (by decide) hs
    obtain ⟨ht₀, htime, ht⟩ := htext (by decide) ht
    have hnot := fun hmem ↦
      hrecalc ⟨hmem, _, _, hdate, htime, Value.truthy_str hs₀, Value.truthy_str ht₀⟩
    rw [hinstant]
    exact hold.sameInstant s t (hs fun hmem ↦ hnot (.inl hmem)) (ht fun hmem ↦ hnot (.inr hmem))
  · rw [Doc.getElem?_insert, if_pos rfl] at hinstant
    refine ⟨fun s t hs ht ↦ ?_, ⟨dt.toStored, hinstant⟩, hnonempty⟩
    obtain rfl := Option.some.inj (hdate.symm.trans (htext (by decide) hs).2.1)
    obtain rfl := Option.some.inj (htime.symm.trans (htext (by decide) ht).2.1)
    exact ⟨dt, hdt, hinstant⟩

/-! ## Forms -/

/-- A form that a browser patch may apply to a QSO. -/
structure FormKeepsInstant (user : User) (qso : QSO) (form : Form) : Prop where
  /-- No custom field of one of the two names is submitted blank. -/
  nonempty : ∀ values, customQsoValuesFromForm form user true = .ok values →
    ∀ k ∈ instantNames, values[k]? ≠ some (.str "")
  /-- New texts parse, together with the stored ones. -/
  parses : (∃ k ∈ instantNames, nonBlank (formParam form k) ≠ none) →
    (formText qso form "QSO_DATE").truthy = true → (formText qso form "TIME_ON").truthy = true →
    ∀ msg, parseAdifDatetime (formText qso form "QSO_DATE") (formText qso form "TIME_ON") ≠
      .error (.valueError msg)

/-- The texts of an instant among the updates are those of the form. -/
theorem getElem?_formUpdates {user : User} {qso : QSO} {form : Form} {updates : Doc}
    (h : formUpdates user qso form = .ok updates) (hkeeps : FormKeepsInstant user qso form) :
    ∃ fields : Doc, fields["qso_date_utc"]? = none ∧
      (∀ k ∈ instantNames, updates[k]? = (nonBlank (formParam form k)).map .str) ∧
      ((∀ k ∈ instantNames, nonBlank (formParam form k) = none) ∧
          updates["qso_date_utc"]? = none ∨
        (∃ k ∈ instantNames, nonBlank (formParam form k) ≠ none) ∧ ∃ dated,
          formInstant fields (formText qso form "QSO_DATE") (formText qso form "TIME_ON") =
            .ok dated ∧ updates["qso_date_utc"]? = dated["qso_date_utc"]?) := by
  obtain ⟨values, hvalues, h⟩ := bind_eq_ok.1 h
  obtain ⟨dated, hdated, h⟩ := bind_eq_ok.1 h
  obtain rfl := Except.ok.inj h
  have hnames : ∀ k ∈ instantNames, k ∉ plainFormNames ∧ k ∉ protectedFields ∧
      k ≠ "qso_date_utc" := by
    decide
  have hstrip : ∀ k ∉ protectedFields, (stripProtected dated)[k]? = dated[k]? := fun k hk ↦ by
    rw [stripProtected, Doc.getElem?_keep, if_pos (decide_eq_true hk)]
  have hnone : (formTexts form values)["qso_date_utc"]? = none :=
    (retouched_formTexts form (retouched_customQsoValues hvalues)).getElem?_eq (by decide)
  -- A custom field of one of the two names holds nothing that the form itself does not.
  have hblank : ∀ k ∈ instantNames, nonBlank (formParam form k) = none →
      (formTexts form values)[k]? = none := by
    intro k hk hform
    rw [getElem?_formTexts (hnames k hk).1]
    exact (customQsoValues_of_blank hvalues hform).resolve_right (hkeeps.nonempty values hvalues k hk)
  refine ⟨formTexts form values, hnone, ?_⟩
  rw [formDate] at hdated
  split at hdated
  · rename_i hnew
    cases hdated
    rw [Bool.and_eq_true, Option.isNone_iff_eq_none, Option.isNone_iff_eq_none] at hnew
    have hall : ∀ k ∈ instantNames, nonBlank (formParam form k) = none := by
      simpa [instantNames] using hnew
    refine ⟨fun k hk ↦ ?_, .inl ⟨hall, by rw [hstrip _ (by decide), hnone]⟩⟩
    rw [hstrip k (hnames k hk).2.1, hblank k hk (hall k hk), hall k hk, Option.map_none]
  · rename_i hnew
    obtain ⟨instant, hinstant, hdated⟩ := bind_eq_ok.1 hdated
    obtain rfl := Except.ok.inj hdated
    have hsome : ∃ k ∈ instantNames, nonBlank (formParam form k) ≠ none := by
      by_contra hnot
      have hall : ∀ k ∈ instantNames, nonBlank (formParam form k) = none := by simpa using hnot
      rw [hall _ (by decide), hall _ (by decide)] at hnew
      exact hnew rfl
    have hkept : ∀ k ∈ instantNames, instant[k]? = (formTexts form values)[k]? := by
      intro k hk
      obtain ⟨rfl, -⟩ | ⟨dt, -, rfl⟩ := formInstant_cases hinstant
      · rfl
      · rw [Doc.getElem?_insert, if_neg (hnames k hk).2.2]
    refine ⟨fun k hk ↦ ?_, .inr ⟨hsome, instant, hinstant, ?_⟩⟩
    · rw [hstrip k (hnames k hk).2.1, getElem?_putNonBlank, getElem?_putNonBlank, hkept k hk]
      have hor : ((nonBlank (formParam form k)).map Value.str).or (formTexts form values)[k]? =
          (nonBlank (formParam form k)).map Value.str := by
        cases hform : nonBlank (formParam form k) with
        | none => rw [hblank k hk hform, Option.map_none, Option.or_none]
        | some s => rfl
      simp only [instantNames, List.mem_cons, List.not_mem_nil, or_false] at hk
      obtain rfl | rfl := hk
      · simpa only [String.reduceEq, if_true, if_false, id_eq] using hor
      · simpa only [String.reduceEq, if_true, if_false, id_eq] using hor
    · rw [hstrip _ (by decide), getElem?_putNonBlank, getElem?_putNonBlank]
      simp only [String.reduceEq, if_false]

/-- **A form that keeps to the rules leaves a coherent document.** -/
theorem coherent_form {now : DateTime} {old new updates : Doc} {user : User} {qso : QSO}
    {form : Form} (hold : Coherent old) (hqso : qsoFromMongoDoc now old = .ok qso)
    (hkeeps : FormKeepsInstant user qso form) (hupdates : formUpdates user qso form = .ok updates)
    (h : applySet (Doc.toStored (withRowHash qso updates)) old = .ok new) : Coherent new := by
  obtain ⟨fields, hfields, htexts, hinstant⟩ := getElem?_formUpdates hupdates hkeeps
  obtain ⟨dt₀, hdt₀⟩ := hold.instant
  have hinstant' : new["qso_date_utc"]? =
      (updates["qso_date_utc"]?.map Value.toStored).or old["qso_date_utc"]? := by
    rw [getElem?_applySet_scalar h (by decide) hdt₀ rfl, getElem?_set qso updates (by decide)]
  have htext : ∀ k ∈ instantNames, ∀ s, new[k]? = some (.str s) → s ≠ "" ∧
      formText qso form k = .str s ∧
      (nonBlank (formParam form k) = none → old[k]? = some (.str s)) := by
    intro k hk s hs
    have hnames : ∀ k ∈ instantNames, PlainKey k ∧ k ≠ "rowHash" := by decide
    obtain hcases | ⟨-, w, hw, hcontainer⟩ := getElem?_applySet_cases h (hnames k hk).1
    · rw [hs, getElem?_set qso updates (hnames k hk).2, htexts k hk] at hcases
      rw [formText]
      cases hform : nonBlank (formParam form k) with
      | some s' =>
        rw [hform] at hcases
        obtain rfl := Value.str.inj (Option.some.inj hcases)
        exact ⟨nonBlank_ne_empty hform, rfl, fun hnone ↦ absurd hnone (Option.some_ne_none _)⟩
      | none =>
        rw [hform] at hcases
        have hold' : old[k]? = some (.str s) := hcases.symm
        refine ⟨fun heq ↦ hold.nonempty k hk (heq ▸ hold'), ?_, fun _ ↦ hold'⟩
        rw [Option.map_none, Option.getD_none, Doc.get, getElem?_modelExtra_instant hqso hk, hold',
          Option.getD_some]
    · rw [hs] at hw
      cases hw
      cases hcontainer
  have hnonempty : ∀ k ∈ instantNames, new[k]? ≠ some (.str "") := fun k hk heq ↦
    (htext k hk "" heq).1 rfl
  obtain ⟨hblank, hnone⟩ | ⟨hsome, dated, hdated, heq⟩ := hinstant
  · -- A form without a date leaves the instant and its texts alone.
    rw [hnone, Option.map_none, Option.none_or] at hinstant'
    refine ⟨fun s t hs ht ↦ ?_, ⟨dt₀, hinstant'.trans hdt₀⟩, hnonempty⟩
    rw [hinstant']
    exact hold.sameInstant s t ((htext _ (by decide) s hs).2.2 (hblank _ (by decide)))
      ((htext _ (by decide) t ht).2.2 (hblank _ (by decide)))
  obtain ⟨rfl, hfails⟩ | ⟨dt, hdt, rfl⟩ := formInstant_cases hdated
  · rw [heq, hfields, Option.map_none, Option.none_or] at hinstant'
    refine ⟨fun s t hs ht ↦ ?_, ⟨dt₀, hinstant'.trans hdt₀⟩, hnonempty⟩
    obtain ⟨hs₀, hdate, -⟩ := htext _ (by decide) s hs
    obtain ⟨ht₀, htime, -⟩ := htext _ (by decide) t ht
    have hdate' := hdate ▸ Value.truthy_str hs₀
    have htime' := htime ▸ Value.truthy_str ht₀
    obtain ⟨msg, hmsg⟩ := hfails hdate' htime'
    exact absurd hmsg (hkeeps.parses hsome hdate' htime' msg)
  · rw [heq, Doc.getElem?_insert, if_pos rfl] at hinstant'
    refine ⟨fun s t hs ht ↦ ?_, ⟨dt.toStored, hinstant'⟩, hnonempty⟩
    rw [(htext _ (by decide) s hs).2.1, (htext _ (by decide) t ht).2.1] at hdt
    exact ⟨dt, hdt, hinstant'⟩

/-! ## Runs -/

/-- The request does not part the instant of the QSO it addresses from its texts. -/
def Request.KeepsInstant (c : Collection) (env : Env) : Request → Prop
  | .patch qsoId body user => ∀ old ∈ c.docs, ∀ qso fields,
    qsoFromMongoDoc env.now old = .ok qso → Addresses qsoId user qso →
    patchedFields user body.fields = .ok fields → Ollog.KeepsInstant qso fields
  | .uiPatch qsoId form user => ∀ old ∈ c.docs, ∀ qso,
    qsoFromMongoDoc env.now old = .ok qso → Addresses qsoId user qso →
    FormKeepsInstant user qso form
  | _ => True

theorem coherent_delete {old new : Doc} {qso : QSO} (hold : Coherent old)
    (h : applySet (Doc.toStored (withRowHash qso ((∅ : Doc).insert "_deleted" (.bool true)))) old =
      .ok new) : Coherent new := by
  have hkept : ∀ k, k ≠ "rowHash" → k ≠ "_deleted" → new[k]? = old[k]? := by
    intro k hk hk'
    refine getElem?_applySet_of_untouched h fun key hkey ↦ ?_
    rw [Doc.mem_toStored, withRowHash, Std.ExtTreeMap.mem_insert, Std.compare_eq_iff_eq,
      Std.ExtTreeMap.mem_insert, Std.compare_eq_iff_eq] at hkey
    obtain rfl | rfl | hkey := hkey
    · rw [rootOf_of_plain (by decide)]
      exact Ne.symm hk
    · rw [rootOf_of_plain (by decide)]
      exact Ne.symm hk'
    · exact absurd hkey Std.ExtTreeMap.not_mem_empty
  have hdate := hkept "qso_date_utc" (by decide) (by decide)
  have htexts : ∀ k ∈ instantNames, new[k]? = old[k]? := by
    have hnames : ∀ k ∈ instantNames, k ≠ "rowHash" ∧ k ≠ "_deleted" := by decide
    exact fun k hk ↦ hkept k (hnames k hk).1 (hnames k hk).2
  refine ⟨fun s t hs ht ↦ ?_, hdate ▸ hold.instant, fun k hk ↦ htexts k hk ▸ hold.nonempty k hk⟩
  rw [htexts _ (by decide)] at hs ht
  rw [hdate]
  exact hold.sameInstant s t hs ht

/-- What a request changes stays coherent. -/
theorem Request.Changes.coherent {c : Collection} {env : Env} {request : Request}
    {old new updates : Doc} {qso : QSO} (hchange : request.Changes qso updates)
    (hrequest : request.KeepsInstant c env) (hmem : old ∈ c.docs) (hold : Coherent old)
    (hqso : qsoFromMongoDoc env.now old = .ok qso)
    (hnew : applySet (Doc.toStored (withRowHash qso updates)) old = .ok new) : Coherent new := by
  cases request with
  | patch qsoId body user =>
    obtain ⟨fields, hfields, -, -, hrecalc⟩ := patchUpdates_eq_ok hchange.2
    exact coherent_patch hold hqso (hrequest old hmem qso fields hqso hchange.1 hfields) hrecalc
      hnew
  | uiPatch qsoId form user =>
    exact coherent_form hold hqso (hrequest old hmem qso hqso hchange.1) hchange.2 hnew
  | delete qsoId user =>
    obtain ⟨-, rfl⟩ := hchange
    exact coherent_delete hold hnew
  | _ => exact absurd hchange id

/-- **The instant of a QSO is the one its texts give**, in every log written by requests that do
not part the two. -/
theorem sameInstant_of_keepsInstant {fullName : String} {rowHashUnique : Bool}
    {events : List (Env × Request)}
    (h : Guarded step (fun c event ↦ event.2.KeepsInstant c event.1)
      (.empty fullName rowHashUnique) events) :
    ∀ d ∈ (run step (.empty fullName rowHashUnique) events).docs, SameInstant d := by
  refine fun d hd ↦ Coherent.sameInstant (forall_docs_of_guarded (P := Coherent) h
    (fun _ _ _ _ _ _ _ _ _ hbuild hqso ↦ ?_)
    (fun hrequest _ _ _ _ hmem hold hqso hchange hnew ↦ ?_) (fun d hd ↦ ?_) d hd)
  · exact coherent_newDoc (built_of_buildQsoDict hbuild) hqso
  · exact hchange.coherent hrequest hmem hold hqso hnew
  · exact absurd hd List.not_mem_nil

end

section

attribute [local instance] UnicodeData.ascii

theorem sameInstant_of_patched_time :
    let docs := (run step Sample.log
      [(Sample.env, .create Sample.contact false Sample.user),
        (Sample.env, .patch Sample.firstId (Sample.oneText "TIME_ON" "1300") Sample.user)]).docs
    docs.length = 1 ∧ ∀ d ∈ docs, SameInstant d := by
  refine ⟨by decide +kernel, sameInstant_of_keepsInstant
    ⟨trivial, fun old _ qso fields _ _ hfields ↦ ?_, trivial⟩⟩
  have hcheck : (match patchedFields Sample.user (Sample.oneText "TIME_ON" "1300").fields with
      | .ok fields => decide (fields["QSO_DATE"]? = none ∧
          fields["TIME_ON"]? = some (.str "1300") ∧ "qso_date_utc" ∉ fields)
      | .error _ => true) = true := by
    decide +kernel
  rw [hfields] at hcheck
  obtain ⟨hdate, htime, hinstant⟩ := of_decide_eq_true hcheck
  refine ⟨fun k hk ↦ ?_, fun h ↦ absurd h hinstant⟩
  simp only [instantNames, List.mem_cons, List.not_mem_nil, or_false] at hk
  obtain rfl | rfl := hk
  · rw [hdate]
    exact (Option.some_ne_none _).symm
  · rw [htime]
    decide

/-- A form whose time does not parse, a body with an empty time and a body with an instant each
part the instant from its texts. -/
theorem not_sameInstant_of_patches :
    List.Forall (fun request ↦ ¬ ∀ d ∈ (run step Sample.log
      [(Sample.env, .create Sample.contact false Sample.user), (Sample.env, request)]).docs,
      SameInstant d)
      [.uiPatch Sample.firstId ((∅ : Form).insert "TIME_ON" "9999") Sample.user,
        .patch Sample.firstId (Sample.oneText "TIME_ON" "") Sample.user,
        .patch Sample.firstId (Sample.oneText "qso_date_utc" "20240102") Sample.user] := by
  refine ⟨?_, ?_, ?_⟩ <;> decide +kernel

end

end Ollog

import Ollog.Qso.Accounting

/-!
# What an import stores is what an export gives back

Between the record of a file and the record an export writes there are the building of the
dictionary, three lists of names that are kept apart, storage, hydration and one more list of names
to skip.  None of the lists takes anything away from a file: the names they hold have lower-case
letters, the names the parser gives have none.
-/

set_option autoImplicit false

namespace Ollog

open Effects

section

variable [UnicodeData]

/-! ## The record an export writes -/

/-- The text an export writes for a value, if it writes the field at all. -/
def exportText (v : Value) : Option String := if v = .null then none else some v.pyStr

theorem getElem?_putText (d : Record) (k : String) (v : Value) (j : String) :
    (putText d k v)[j]? = if j = k then (exportText v).or d[j]? else d[j]? := by
  rw [putText, exportText]
  split
  · simp only [Option.none_or, ite_self]
  · rw [Std.ExtTreeMap.getElem?_insert]
    simp only [Std.compare_eq_iff_eq, @eq_comm _ k j, Option.some_or]

/-- The extra fields of a QSO are laid over what is there. -/
theorem getElem?_foldl_putText {ps : List (String × Value)}
    (hdistinct : ps.Pairwise fun p q ↦ p.1 ≠ q.1) (d : Record) (j : String) :
    (ps.foldl (fun d (k, v) ↦ if k ∈ skipFields then d else putText d k v) d)[j]? =
      ((ps.lookup j).bind fun v ↦ if j ∈ skipFields then none else exportText v).or d[j]? := by
  induction ps generalizing d with
  | nil => rfl
  | cons p ps ih =>
    obtain ⟨k, v⟩ := p
    obtain ⟨hk, hrest⟩ := List.pairwise_cons.1 hdistinct
    rw [List.foldl_cons, ih hrest, List.lookup_cons]
    by_cases hj : j = k
    · subst hj
      have hnone : ps.lookup j = none :=
        List.lookup_eq_none_iff.2 fun q hq ↦ by simpa using hk q hq
      rw [beq_self_eq_true, hnone]
      dsimp only
      by_cases hskip : j ∈ skipFields
      · simp only [hskip, if_true, Option.bind_none, Option.bind_some, Option.none_or]
      · simp only [hskip, if_false, Option.bind_none, Option.bind_some, Option.none_or,
          getElem?_putText, if_true]
    · have hkept : (if k ∈ skipFields then d else putText d k v)[j]? = d[j]? := by
        split
        · rfl
        · rw [getElem?_putText, if_neg hj]
      rw [beq_false_of_ne hj, hkept]

omit [UnicodeData] in
theorem pairwise_toList (d : Doc) : d.toList.Pairwise fun p q ↦ p.1 ≠ q.1 :=
  Std.ExtTreeMap.distinct_keys_toList.imp fun h heq ↦ h (Std.compare_eq_iff_eq.2 heq)

omit [UnicodeData] in
theorem lookup_toList (d : Doc) (k : String) : d.toList.lookup k = d[k]? := by
  have hdistinct := pairwise_toList d
  cases hk : d[k]? with
  | none =>
    refine List.lookup_eq_none_iff.2 fun p hp ↦ ?_
    rw [bne_iff_ne]
    rintro rfl
    cases (Std.ExtTreeMap.mem_toList_iff_getElem?_eq_some.1 hp).symm.trans hk
  | some v =>
    obtain ⟨ps, qs, heq⟩ :=
      List.append_of_mem (Std.ExtTreeMap.mem_toList_iff_getElem?_eq_some.2 hk)
    refine List.lookup_eq_some_iff.2 ⟨ps, qs, heq, fun p hp ↦ ?_⟩
    rw [heq, List.pairwise_append] at hdistinct
    rw [bne_iff_ne]
    exact (hdistinct.2.2 p hp _ (List.mem_cons_self ..)).symm

/-- **The record an export writes**, field by field: the extra fields, and behind them the three
declared ones. -/
theorem getElem?_qsoToAdifDict (qso : QSO) (j : String) :
    (qsoToAdifDict qso)[j]? =
      (qso.modelExtra[j]?.bind fun v ↦ if j ∈ skipFields then none else exportText v).or
        (if j = "CALL" then exportText qso.call else if j = "BAND" then exportText qso.band
          else if j = "MODE" then exportText qso.mode else none) := by
  rw [qsoToAdifDict, getElem?_foldl_putText (pairwise_toList _), lookup_toList]
  congr 1
  simp only [getElem?_putText, Std.ExtTreeMap.getElem?_empty, Option.or_none]
  grind

/-- The record an export writes for a stored document. -/
theorem getElem?_qsoToAdifDict_of_hydrated {now : DateTime} {d : Doc} {qso : QSO}
    (h : qsoFromMongoDoc now d = .ok qso) (j : String) :
    (qsoToAdifDict qso)[j]? =
      if j ∈ ["CALL", "BAND", "MODE"] then exportText (Doc.get d j .null)
      else if j ∈ skipFields ∨ j ∈ hiddenNames ∨ j ∈ aliasNames then none
      else d[j]?.bind exportText := by
  have hdeclared := (QSO.modelConstruct_eq_ok.1 h).2
  rw [getElem?_qsoToAdifDict, getElem?_modelExtra_of_hydrated h]
  by_cases hj : j ∈ ["CALL", "BAND", "MODE"]
  · have halias : ∀ j ∈ ["CALL", "BAND", "MODE"], j ∈ aliasNames := by decide
    rw [if_pos (.inr (halias j hj)), if_pos hj, Option.bind_none, Option.none_or, hdeclared]
    simp only [List.mem_cons, List.not_mem_nil, or_false] at hj
    obtain rfl | rfl | rfl := hj <;> simp only [String.reduceEq, if_true, if_false]
  · rw [if_neg hj]
    simp only [List.mem_cons, List.not_mem_nil, or_false, not_or] at hj
    simp only [hj, if_false, Option.or_none]
    by_cases hhidden : j ∈ hiddenNames ∨ j ∈ aliasNames
    · rw [if_pos hhidden, if_pos (.inr hhidden), Option.bind_none]
    · rw [if_neg hhidden]
      by_cases hskip : j ∈ skipFields
      · simp only [hskip, true_or, if_true, Option.bind_fun_none]
      · rw [if_neg (not_or.2 ⟨hskip, hhidden⟩)]
        simp only [hskip, if_false]

/-! ## The record of a file -/

/-- **A record comes back** from the document that is stored for it. -/
theorem qsoToAdifDict_newDoc {env : Env} {idx : Nat} {operator : String} {record : Record}
    {dt now : DateTime} {qso : QSO} (hup : UpperNamed record)
    (hrequired : ∀ k ∈ requiredFields, k ∈ record)
    (h : qsoFromMongoDoc now (Doc.toStored (newDoc env idx (importDict operator record dt))) =
      .ok qso) :
    qsoToAdifDict qso = record := by
  -- No internal name is the name of a field of a file.
  have hinternal : ∀ k ∈ skipFields ++ hiddenNames ++ aliasNames, k ∉ ["CALL", "BAND", "MODE"] →
      (k.toList.any Char.isLower) = true := by decide
  have hfield : ∀ k, k ∈ ["CALL", "BAND", "MODE"] ∨ k ∉ aliasNames → (Doc.toStored
      (newDoc env idx (importDict operator record dt)))[k]? = record[k]?.map Value.str := by
    intro k hk
    have hne : ∀ j ∈ ["_id", "_operator", "qso_date_utc", "_deleted", "_created_at", "rowHash"],
        k ≠ j := by
      rintro j hj rfl
      have hnames : ∀ k ∈ ["_id", "_operator", "qso_date_utc", "_deleted", "_created_at",
        "rowHash"], ¬ (k ∈ ["CALL", "BAND", "MODE"] ∨ k ∉ aliasNames) := by decide
      exact hnames k hj hk
    simp only [List.mem_cons, List.not_mem_nil, or_false, forall_eq_or_imp, forall_eq] at hne
    rw [Doc.getElem?_toStored, getElem?_newDoc_importDict hup hrequired]
    simp only [hne, if_false, Option.map_map]
    rfl
  refine Std.ExtTreeMap.ext_getElem? fun j ↦ ?_
  rw [getElem?_qsoToAdifDict_of_hydrated h]
  by_cases hj : j ∈ ["CALL", "BAND", "MODE"]
  · have hnames : ∀ j ∈ ["CALL", "BAND", "MODE"], j ∈ requiredFields := by decide
    obtain ⟨s, hs⟩ := Option.isSome_iff_exists.1
      (Std.ExtTreeMap.mem_iff_isSome_getElem?.1 (hrequired j (hnames j hj)))
    rw [if_pos hj, Doc.get, hfield j (.inl hj), hs]
    rfl
  · rw [if_neg hj]
    by_cases hname : j ∈ skipFields ∨ j ∈ hiddenNames ∨ j ∈ aliasNames
    · rw [if_pos hname, hup.getElem?_eq_none (hinternal j ?_ hj)]
      simpa only [List.mem_append, or_assoc] using hname
    · rw [if_neg hname, hfield j (.inr fun h ↦ hname (.inr (.inr h)))]
      cases record[j]? <;> rfl

/-- **An import is faithful.**  Whatever a file contains, the document that is stored for an
accepted record, the one its entry names, is exported as that record with its band and mode
upper-cased. -/
theorem import_faithful {fullName : String} {rowHashUnique : Bool} {env : Env} {raw : List UInt8}
    {operator : String} {report : ImportReport} {c : Collection}
    (hfresh : ((List.range (parseAdi (decodeUtf8 raw)).1.length).map env.fresh).Nodup)
    (himport : (importQsosFromBytes env raw operator : Db _) (.empty fullName rowHashUnique) =
      .ok report c) :
    ∀ entry ∈ report.accepted, ∃ record oid d,
      (parseAdi (decodeUtf8 raw)).1[entry.recordIndex]? = some record ∧
        ObjectId.ofText entry.id = some oid ∧ c.findById (.oid oid) = some d ∧
        ∀ now, ∃ qso, qsoFromMongoDoc now d = .ok qso ∧
          qsoToAdifDict qso = upperBandMode record := by
  intro entry hentry
  obtain ⟨outcomes, hjudged, rfl⟩ := judgedAll_of_import
    (fun _ hd ↦ absurd hd List.not_mem_nil) ⟨hfresh, fun _ _ _ hd ↦ absurd hd List.not_mem_nil⟩
    himport
  rw [addAll_eq] at hentry
  obtain ⟨⟨⟨record, idx⟩, outcome⟩, hmem, hp⟩ := List.mem_filterMap.1 hentry
  obtain ⟨heq, hidx⟩ := acceptedEntry_eq_some hp
  obtain ⟨qsoDict, hvalid, -, hid, hd⟩ := hjudged.mem_of_accepted (heq ▸ hmem)
  have hitem := (List.of_mem_zip hmem).1
  obtain ⟨dt, rfl, hupper, hrequired⟩ :=
    newDoc_of_validated hvalid (upperNamed_of_mem_importItems hitem)
  refine ⟨record, env.fresh idx, _, ?_, ?_, Collection.findById_eq_some.2 ⟨hd, ?_⟩, fun now ↦ ?_⟩
  · rw [hidx]
    exact List.mk_mem_zipIdx_iff_getElem?.1 hitem
  · rw [hid, ObjectId.ofText_str]
  · rw [Doc.getElem?_toStored, getElem?_newDoc_importDict hupper hrequired, if_pos rfl]
    rfl
  · obtain ⟨qso, hqso⟩ := hjudged.readable (fun _ ↦ upperNamed_of_mem_importItems)
      (fun _ hd ↦ absurd hd List.not_mem_nil) _ hd now
    exact ⟨qso, hqso, qsoToAdifDict_newDoc hupper hrequired hqso⟩

end

section

attribute [local instance] UnicodeData.ascii

theorem import_faithful_of_contact : ∃ report c,
    (importQsosFromBytes Sample.env Sample.file "W1AW" : Db _) (.empty "ollog.w1aw_qsos" true) =
      .ok report c ∧ report.accepted.length = 1 ∧
    ∀ entry ∈ report.accepted, ∃ record oid d,
      (parseAdi (decodeUtf8 Sample.file)).1[entry.recordIndex]? = some record ∧
        ObjectId.ofText entry.id = some oid ∧ c.findById (.oid oid) = some d ∧
        ∀ now, ∃ qso, qsoFromMongoDoc now d = .ok qso ∧
          qsoToAdifDict qso = upperBandMode record := by
  have hone : (match (importQsosFromBytes Sample.env Sample.file "W1AW" : Db _)
      (.empty "ollog.w1aw_qsos" true) with
      | .ok report _ => report.accepted.length == 1
      | .error _ _ => false) = true := by decide +kernel
  have hnodup : ((List.range (parseAdi (decodeUtf8 Sample.file)).1.length).map
      Sample.env.fresh).Nodup := by decide +kernel
  cases himport : (importQsosFromBytes Sample.env Sample.file "W1AW" : Db _)
      (.empty "ollog.w1aw_qsos" true) with
  | error exc c =>
    rw [himport] at hone
    cases hone
  | ok report c =>
    rw [himport] at hone
    exact ⟨report, c, rfl, of_decide_eq_true hone, import_faithful hnodup himport⟩

end

end Ollog

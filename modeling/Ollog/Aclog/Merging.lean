import Ollog.Aclog.Provenance

/-!
# Merging a record does not change which contact it is

The bridge merges the record of an event with the full record that matches it and with the cache of
the text boxes.  `aclog_records_match` is not transitive, since a missing band or mode matches
anything; but the merged record takes each of its fields from one of the two, so it matches both.
A band is brought into one spelling, and that has no effect on it a second time, so neither has the
merge: `mergeAclogRecords_spec`.
-/

set_option autoImplicit false

namespace Ollog

open OrderedDict

section Merging

variable [UnicodeData]

/-! ## Bands -/

/-- A band as the merge leaves it. -/
def mergedBand (band : String) : String := (normalizeBand (some band)).getD band

/-- What is in the spelling of a band is left in it. -/
theorem normalizeBand_normalizeBand (hlaws : UnicodeData.UpperLaws) (hspace : UnicodeData.SpaceLaw)
    (hne : UnicodeData.NonemptyLaw) {value : Option String} {band : String}
    (h : normalizeBand value = some band) : normalizeBand (some band) = some band := by
  unfold normalizeBand at h
  split at h
  · cases h
  rename_i s
  have hupper : Uppercase (upper (strip s)) := uppercase_upper hlaws _
  have htrimmed : Trimmed (upper (strip s)).toList := by
    rw [toList_upper, strip, String.toList_ofList]
    exact trimmed_upperChars hspace hne (trimmed_stripChars _)
  dsimp only at h
  generalize upper (strip s) = spelling at h hupper htrimmed
  split at h
  · cases h
  rename_i hnonempty
  split at h
  · rename_i hends
    obtain rfl : spelling = band := Option.some.inj h
    simp only [normalizeBand, upper_strip_of_trimmed hupper htrimmed, if_neg hnonempty, if_pos hends]
  · obtain rfl : spelling ++ "M" = band := Option.some.inj h
    have hupper' : Uppercase (spelling ++ "M") := by
      intro c hc
      rw [String.toList_append, List.mem_append] at hc
      rcases hc with hc | hc
      · exact hupper c hc
      · rw [List.mem_singleton.1 hc]
        exact UnicodeData.upper_ascii 'M' (by decide)
    have hlast : (spelling ++ "M").toList.getLast? = some 'M' := by
      rw [String.toList_append]
      exact List.getLast?_concat
    have htrimmed' : Trimmed (spelling ++ "M").toList := by
      refine ⟨fun c hc ↦ ?_, fun c hc ↦ ?_⟩
      · rw [String.toList_append, List.head?_append] at hc
        rcases Option.or_eq_some_iff.1 hc with hc | ⟨-, hc⟩
        · exact htrimmed.1 c hc
        · obtain rfl : 'M' = c := Option.some.inj hc
          decide
      · rw [hlast] at hc
        obtain rfl : 'M' = c := Option.some.inj hc
        decide
    have hnonempty' : spelling ++ "M" ≠ "" := fun heq ↦ by
      rw [heq] at hlast
      cases hlast
    simp only [normalizeBand, upper_strip_of_trimmed hupper' htrimmed', if_neg hnonempty',
      if_pos hlast]

theorem comparisonValue_empty (key : String) : comparisonValue key (some "") = none := by
  rw [comparisonValue]

theorem comparisonValue_band (band : String) :
    comparisonValue "BAND" (some band) = normalizeBand (some band) := by
  by_cases hband : band = ""
  · have hempty : upper (strip "") = "" := rfl
    rw [hband, comparisonValue_empty]
    simp only [normalizeBand, hempty, if_true]
  · rw [comparisonValue, if_pos rfl]
    exact hband

/-- The spelling of a band does not matter for comparing it. -/
theorem comparisonValue_mergedBand (hlaws : UnicodeData.UpperLaws) (hspace : UnicodeData.SpaceLaw)
    (hne : UnicodeData.NonemptyLaw) (band : String) :
    comparisonValue "BAND" (some (mergedBand band)) = comparisonValue "BAND" (some band) := by
  rw [comparisonValue_band, comparisonValue_band, mergedBand]
  cases hband : normalizeBand (some band) with
  | none => exact hband
  | some spelling => exact normalizeBand_normalizeBand hlaws hspace hne hband

theorem mergedBand_mergedBand (hlaws : UnicodeData.UpperLaws) (hspace : UnicodeData.SpaceLaw)
    (hne : UnicodeData.NonemptyLaw) (band : String) :
    mergedBand (mergedBand band) = mergedBand band := by
  cases hband : normalizeBand (some band) with
  | none =>
    have hself : mergedBand band = band := by rw [mergedBand, hband]; rfl
    rw [hself, hself]
  | some spelling =>
    have hspelling : mergedBand band = spelling := by rw [mergedBand, hband]; rfl
    rw [hspelling, mergedBand, normalizeBand_normalizeBand hlaws hspace hne hband]
    rfl

theorem mergedBand_ne_empty {band : String} (h : band ≠ "") : mergedBand band ≠ "" := by
  rw [mergedBand]
  cases hband : normalizeBand (some band) with
  | none => exact h
  | some spelling =>
    simp only [normalizeBand] at hband
    split at hband
    · cases hband
    rename_i hnonempty
    split at hband
    · exact Option.some.inj hband ▸ hnonempty
    · rw [← Option.some.inj hband, Option.getD_some]
      exact fun heq ↦ hnonempty (String.append_eq_empty_iff.1 heq).1

/-! ## Merged records -/

/-- What a field of the event and of the full record is worth. -/
def recordValue (base full : Fields) (k : String) : Option String :=
  (nonEmpty (full.get k)).or (nonEmpty (base.get k))

/-- What a field of the cache is worth. -/
def cachedValue (state : Fields) (k : String) : Option String :=
  if k ∈ cachedFields ∨ isOtherSlot k then nonEmpty (state.get k) else none

/-- What a merged record has for a key. -/
def mergedValue (base full state : Fields) (k : String) : Option String :=
  let value := (recordValue base full k).or (cachedValue state k)
  if k = "BAND" then value.map mergedBand else value

theorem get_setBand (d : Fields) :
    (setBand d (d.get "BAND")).get "BAND" = (d.get "BAND").map mergedBand := by
  cases hband : d.get "BAND" with
  | none => exact hband
  | some band =>
    simp only [Option.map_some, mergedBand]
    rw [setBand]
    split
    · rename_i hnone
      rw [hnone]
      exact hband
    · rename_i spelling hsome
      rw [get_set, if_pos rfl, hsome]
      rfl

/-- A merged record, key by key. -/
theorem get_mergeAclogRecords_eq {base full state : Fields} (hbase : base.Distinct)
    (hfull : full.Distinct) (hstate : state.Distinct) (k : String) :
    (mergeAclogRecords base full state).get k = mergedValue base full state k := by
  have hget : ∀ k, (((state.filter fun item ↦ item.1 ∈ cachedFields || isOtherSlot item.1).foldl
      fillIn (full.foldl (fun merged item ↦ setNonEmpty merged item.1 (some item.2))
        (base.filter fun item ↦ item.2 ≠ ""))).get k) =
      (recordValue base full k).or (cachedValue state k) := by
    intro k
    have hcached : nonEmpty (OrderedDict.get (state.filter fun item ↦
        item.1 ∈ cachedFields || isOtherSlot item.1) k) = cachedValue state k := by
      rw [get_filter (p := fun key ↦ decide (key ∈ cachedFields) || isOtherSlot key), cachedValue]
      simp only [Bool.or_eq_true, decide_eq_true_eq]
      split <;> rfl
    rw [get_foldl_fillIn, findSome?_of_distinct (hstate.filter _), get_foldl_setNonEmpty hfull,
      hbase.get_filter, hcached]
    rfl
  rw [mergeAclogRecords, mergedValue]
  by_cases hk : k = "BAND"
  · subst hk
    rw [get_setBand, hget, if_pos rfl]
  · rw [get_setBand_of_ne _ _ hk, hget, if_neg hk]

/-! ## Matching -/

theorem aclogRecordsMatch_iff {base full : Fields} : aclogRecordsMatch base full = true ↔
    (∀ key ∈ ["CALL", "QSO_DATE", "TIME_ON"], (comparisonValue key (base.get key)).getD "" ≠ "" ∧
      comparisonValue key (base.get key) = comparisonValue key (full.get key)) ∧
    ∀ key ∈ ["BAND", "MODE"], (comparisonValue key (base.get key)).getD "" = "" ∨
      (comparisonValue key (full.get key)).getD "" = "" ∨
      comparisonValue key (base.get key) = comparisonValue key (full.get key) := by
  rw [aclogRecordsMatch, Bool.and_eq_true, List.all_eq_true, List.all_eq_true]
  simp only [Bool.and_eq_true, Bool.or_eq_true, decide_eq_true_eq, or_assoc]

theorem comparisonValue_nonEmpty (key : String) (value : Option String) :
    comparisonValue key (nonEmpty value) = comparisonValue key value := by
  cases value with
  | none => rfl
  | some value =>
    by_cases hvalue : value = ""
    · rw [hvalue, comparisonValue_empty]
      rfl
    · rw [nonEmpty, Option.filter_some, if_pos (by simpa using hvalue)]

/-- A merged value compares like that of the full record, or like that of the event if the full
record has none. -/
theorem comparisonValue_recordValue (base full : Fields) (key : String) :
    comparisonValue key (recordValue base full key) = comparisonValue key (full.get key) ∨
      comparisonValue key (full.get key) = none ∧
        comparisonValue key (recordValue base full key) = comparisonValue key (base.get key) := by
  rw [recordValue, ← comparisonValue_nonEmpty key (full.get key),
    ← comparisonValue_nonEmpty key (base.get key)]
  cases nonEmpty (full.get key) with
  | none => exact .inr ⟨rfl, by rw [Option.none_or]⟩
  | some value => exact .inl rfl

theorem comparisonValue_mergedValue (hlaws : UnicodeData.UpperLaws)
    (hspace : UnicodeData.SpaceLaw) (hne : UnicodeData.NonemptyLaw) (base full state : Fields)
    {key : String} (hkey : key ∈ ["CALL", "QSO_DATE", "TIME_ON", "BAND", "MODE"]) :
    comparisonValue key (mergedValue base full state key) =
      comparisonValue key (recordValue base full key) := by
  have hcached : cachedValue state key = none :=
    if_neg ((by decide : ∀ key ∈ ["CALL", "QSO_DATE", "TIME_ON", "BAND", "MODE"],
      ¬ (key ∈ cachedFields ∨ isOtherSlot key)) key hkey)
  rw [mergedValue, hcached, Option.or_none]
  by_cases hband : key = "BAND"
  · subst hband
    rw [if_pos rfl]
    cases recordValue base full "BAND" with
    | none => rfl
    | some band => exact comparisonValue_mergedBand hlaws hspace hne band
  · rw [if_neg hband]

/-- A second merge with the same records changes nothing. -/
theorem mergedValue_mergedValue (hlaws : UnicodeData.UpperLaws) (hspace : UnicodeData.SpaceLaw)
    (hne : UnicodeData.NonemptyLaw) {base full state m : Fields} {k : String}
    (hm : m.get k = mergedValue base full state k) :
    mergedValue m full state k = mergedValue base full state k := by
  have hidem : ∀ value : Option String, nonEmpty (nonEmpty value) = nonEmpty value := fun value ↦ by
    rw [nonEmpty, nonEmpty, Option.filter_filter]
    simp only [Bool.and_self]
  by_cases hband : k = "BAND"
  · subst hband
    have hcached : cachedValue state "BAND" = none := if_neg (by decide)
    simp only [mergedValue, hcached, Option.or_none, if_true, recordValue] at hm ⊢
    rw [hm]
    cases nonEmpty (full.get "BAND") with
    | some band => rw [Option.some_or, Option.some_or]
    | none =>
      simp only [Option.none_or]
      cases hbase : base.get "BAND" with
      | none => rfl
      | some band =>
        by_cases hempty : band = ""
        · have hnone : nonEmpty (some "") = none := rfl
          rw [hempty, hnone, Option.map_none]
          rfl
        · have hself : ∀ b, b ≠ "" → nonEmpty (some b) = some b := fun b hb ↦ by
            rw [nonEmpty, Option.filter_some, if_pos (by simpa using hb)]
          rw [hself band hempty, Option.map_some, hself _ (mergedBand_ne_empty hempty),
            Option.map_some, mergedBand_mergedBand hlaws hspace hne]
  · simp only [mergedValue, if_neg hband] at hm ⊢
    rw [recordValue, hm, recordValue]
    cases nonEmpty (full.get k) with
    | some value => simp only [Option.some_or]
    | none =>
      rw [Option.none_or, Option.none_or]
      have hor : nonEmpty ((nonEmpty (base.get k)).or (cachedValue state k)) =
          (nonEmpty (base.get k)).or (cachedValue state k) := by
        cases hbase : nonEmpty (base.get k) with
        | some value => rw [Option.some_or, ← hbase, hidem]
        | none =>
          rw [Option.none_or, cachedValue]
          split
          · exact hidem _
          · rfl
      rw [hor, Option.or_assoc, Option.or_self]

theorem distinct_mergeAclogRecords {base : Fields} (hbase : base.Distinct) (full state : Fields) :
    (mergeAclogRecords base full state).Distinct := by
  have hfilled : OrderedDict.Distinct (full.foldl (fun merged item ↦
      setNonEmpty merged item.1 (some item.2)) (base.filter fun item ↦ item.2 ≠ "")) :=
    Distinct.foldl (fun _ hd (item : String × String) ↦
      Distinct.setNonEmpty hd item.1 (some item.2)) (hbase.filter _)
  rw [mergeAclogRecords]
  exact Distinct.setBand (Distinct.foldl (fun _ hd item ↦ Distinct.fillIn hd item) hfilled) _

/-- **Merging does not change which contact a record is**: the merged record matches both of its
sources, has the value of the full record, or else of the event, or else of the cache for each key,
and a second merge changes nothing. -/
theorem mergeAclogRecords_spec (hlaws : UnicodeData.UpperLaws) (hspace : UnicodeData.SpaceLaw)
    (hne : UnicodeData.NonemptyLaw) {base full state : Fields} (hbase : base.Distinct)
    (hfull : full.Distinct) (hstate : state.Distinct) (hmatch : aclogRecordsMatch base full = true) :
    aclogRecordsMatch base (mergeAclogRecords base full state) = true ∧
    aclogRecordsMatch (mergeAclogRecords base full state) full = true ∧
    (∀ k, (mergeAclogRecords base full state).get k = mergedValue base full state k) ∧
    ∀ k, (mergeAclogRecords (mergeAclogRecords base full state) full state).get k =
      (mergeAclogRecords base full state).get k := by
  have hget := get_mergeAclogRecords_eq hbase hfull hstate
  have hcompare : ∀ key ∈ ["CALL", "QSO_DATE", "TIME_ON", "BAND", "MODE"],
      comparisonValue key ((mergeAclogRecords base full state).get key) =
        comparisonValue key (recordValue base full key) := fun key hkey ↦ by
    rw [hget, comparisonValue_mergedValue hlaws hspace hne base full state hkey]
  obtain ⟨hrequired, hoptional⟩ := aclogRecordsMatch_iff.1 hmatch
  -- The fields that have to be there are the same in all three records.
  have hsame : ∀ key ∈ ["CALL", "QSO_DATE", "TIME_ON"],
      comparisonValue key ((mergeAclogRecords base full state).get key) =
        comparisonValue key (base.get key) := by
    intro key hkey
    obtain ⟨hnonempty, heq⟩ := hrequired key hkey
    rw [hcompare key (by
      simp only [List.mem_cons, List.not_mem_nil, or_false] at hkey ⊢
      rcases hkey with rfl | rfl | rfl <;> simp)]
    rcases comparisonValue_recordValue base full key with h | ⟨hnone, -⟩
    · exact h.trans heq.symm
    · rw [heq, hnone] at hnonempty
      exact absurd rfl hnonempty
  have heither : ∀ key ∈ ["BAND", "MODE"],
      comparisonValue key ((mergeAclogRecords base full state).get key) =
          comparisonValue key (full.get key) ∨
        comparisonValue key (full.get key) = none ∧
          comparisonValue key ((mergeAclogRecords base full state).get key) =
            comparisonValue key (base.get key) := by
    intro key hkey
    rw [hcompare key (by
      simp only [List.mem_cons, List.not_mem_nil, or_false] at hkey ⊢
      rcases hkey with rfl | rfl <;> simp)]
    exact comparisonValue_recordValue base full key
  refine ⟨aclogRecordsMatch_iff.2 ⟨fun key hkey ↦ ?_, fun key hkey ↦ ?_⟩,
    aclogRecordsMatch_iff.2 ⟨fun key hkey ↦ ?_, fun key hkey ↦ ?_⟩, hget, fun k ↦ ?_⟩
  · exact ⟨(hrequired key hkey).1, (hsame key hkey).symm⟩
  · rcases heither key hkey with h | ⟨-, h⟩
    · rw [h]
      exact hoptional key hkey
    · exact .inr (.inr h.symm)
  · rw [hsame key hkey]
    exact hrequired key hkey
  · rcases heither key hkey with h | ⟨h, -⟩
    · exact .inr (.inr h)
    · rw [h]
      exact .inr (.inl rfl)
  · rw [get_mergeAclogRecords_eq (distinct_mergeAclogRecords hbase full state) hfull hstate,
      mergedValue_mergedValue hlaws hspace hne (hget k), hget]

end Merging

section Concrete

attribute [local instance] UnicodeData.ascii

/-- An event, as the merge gets it. -/
def Sample.event : Fields :=
  [("CALL", "W1AW"), ("QSO_DATE", "20240101"), ("TIME_ON", "120000"), ("BAND", "20")]

/-- The full record of the same contact. -/
def Sample.full : Fields :=
  [("CALL", "w1aw"), ("QSO_DATE", "2024/01/01"), ("TIME_ON", "1200"), ("MODE", "CW")]

theorem mergeAclogRecords_sample : aclogRecordsMatch Sample.event Sample.full = true ∧
    aclogRecordsMatch Sample.event
      (mergeAclogRecords Sample.event Sample.full [("FREQ", "14.05")]) = true := by
  have hmatch : aclogRecordsMatch Sample.event Sample.full = true := by decide +kernel
  have hdistinct : ∀ d ∈ [Sample.event, Sample.full, [("FREQ", "14.05")]], d.Distinct := by
    unfold OrderedDict.Distinct
    decide
  exact ⟨hmatch, (mergeAclogRecords_spec UnicodeData.upperLaws_ascii UnicodeData.spaceLaw_ascii
    UnicodeData.nonemptyLaw_ascii (hdistinct _ (by simp)) (hdistinct _ (by simp))
    (hdistinct _ (by simp)) hmatch).1⟩

end Concrete

end Ollog

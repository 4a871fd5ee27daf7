import Ollog.Adif.FileRecords
import Ollog.Qso.Accounting

/-!
# What a `record_index` says

An import reports with two sets of numbers under one name.  A bad tag comes with the number of its
file record, and `<EOR>`s without a record count; what the import makes of a record comes with the
position of the record in what the parser returns, and there they do not count.

So a number stands for one file record exactly if every file record with a bad tag is in step: there
is no empty one before it, or it is itself not returned, and its number is past those of the records
that are (`indicesIdentify_iff`).
-/

set_option autoImplicit false

namespace Ollog

open Effects

/-! ## What an entry is about -/

/-- An entry of a report with a `record_index` is about a file record.  The errors of the parser
come first, in the order of the tags; behind them, the loop takes the returned records one after
another, and writes an entry with the position of the record. -/
inductive ImportReport.About (report : ImportReport) (view : FileView) : Nat → Nat → Prop
  | badTag {k : Nat} {entry : ErrorEntry} {tag : List Char} {j : Nat}
      (hentry : report.errors[k]? = some entry) (htag : view.reported[k]? = some (tag, j)) :
      About report view entry.recordIndex j
  | accepted {entry : AcceptedEntry} {tags : List TagEvent} {j : Nat}
      (hentry : entry ∈ report.accepted)
      (hrecord : view.returned[entry.recordIndex]? = some (tags, j)) :
      About report view entry.recordIndex j
  | duplicate {entry : DuplicateEntry} {tags : List TagEvent} {j : Nat}
      (hentry : entry ∈ report.duplicates)
      (hrecord : view.returned[entry.recordIndex]? = some (tags, j)) :
      About report view entry.recordIndex j
  | error {entry : ErrorEntry} {tags : List TagEvent} {j : Nat}
      (hentry : entry ∈ report.errors.drop view.reported.length)
      (hrecord : view.returned[entry.recordIndex]? = some (tags, j)) :
      About report view entry.recordIndex j

/-- Two entries have the same `record_index` exactly if they are about the same file record. -/
def ImportReport.IndicesIdentify (report : ImportReport) (view : FileView) : Prop :=
  ∀ i i' j j', report.About view i j → report.About view i' j' → (i = i' ↔ j = j')

/-- Every file record with a bad tag has no empty one before it and is not empty itself, or is
empty, with at most as many records that are not as there are file records before it. -/
def FileView.InStep (view : FileView) : Prop :=
  ∀ j tags, view.ended[j]? = some tags → badTags tags ≠ [] →
    (∀ tags' ∈ view.ended.take (j + 1), filled tags' = true) ∨
      (filled tags = false ∧ view.ended.countP filled ≤ j)

section

variable [UnicodeData]

/-- The report of an import that returns, list by list. -/
theorem exists_outcomes_of_import {env : Env} {raw : List UInt8} {operator : String}
    {c c' : Collection} {report : ImportReport}
    (h : (importQsosFromBytes env raw operator : Db _) c = .ok report c') :
    ∃ ps : List ((Record × Nat) × Outcome),
      ps.map (fun p ↦ p.1.2) = List.range (fileView (decodeUtf8 raw)).returned.length ∧
      report.accepted = ps.filterMap acceptedEntry ∧
      report.duplicates = ps.filterMap duplicateEntry ∧
      report.errors = ((fileView (decodeUtf8 raw)).reported.map fun item ↦
        { recordIndex := item.2, error := (badTagError item).error }) ++
          ps.filterMap errorEntry := by
  rw [importQsosFromBytes_eq (length_le_of_import h)] at h
  obtain ⟨outcomes, c'', hmap, hreport⟩ := run_bind_eq_ok.1 h
  have hfst : ((importItems raw).zip outcomes).map Prod.fst = importItems raw :=
    List.map_fst_zip (length_of_run_mapM hmap).ge
  have hrecords : (parseAdi (decodeUtf8 raw)).1.length =
      (fileView (decodeUtf8 raw)).returned.length := by
    rw [parseAdi_eq, List.length_map]
  cases hreport
  refine ⟨(importItems raw).zip outcomes, ?_, ?_, ?_, ?_⟩
  · rw [← hrecords, ← map_snd_importItems, ← congrArg (List.map Prod.snd) hfst, List.map_map]
    rfl
  · rw [addAll_eq]
    rfl
  · rw [addAll_eq]
    rfl
  · rw [addAll_eq]
    dsimp only
    rw [initialReport, parseAdi_eq]
    dsimp only
    rw [List.map_map]
    rfl

/-- **The entries of a report**: a bad tag has the number of its file record, and every returned
record has an entry with its position. -/
theorem about_iff {env : Env} {raw : List UInt8} {operator : String} {c c' : Collection}
    {report : ImportReport} (h : (importQsosFromBytes env raw operator : Db _) c = .ok report c')
    {i j : Nat} : report.About (fileView (decodeUtf8 raw)) i j ↔
      (i = j ∧ ∃ tag, (tag, j) ∈ (fileView (decodeUtf8 raw)).reported) ∨
        ∃ tags, (fileView (decodeUtf8 raw)).returned[i]? = some (tags, j) := by
  obtain ⟨ps, hindices, haccepted, hduplicates, herrors⟩ := exists_outcomes_of_import h
  generalize fileView (decodeUtf8 raw) = view at hindices herrors ⊢
  constructor
  · rintro (@⟨k, entry, tag, j, hentry, htag⟩ | @⟨entry, tags, j, -, hrecord⟩ |
      @⟨entry, tags, j, -, hrecord⟩ | @⟨entry, tags, j, -, hrecord⟩)
    · have hk := (List.getElem?_eq_some_iff.1 htag).1
      rw [herrors, List.getElem?_append_left (by rwa [List.length_map]), List.getElem?_map,
        htag] at hentry
      cases hentry
      exact .inl ⟨rfl, tag, List.mem_of_getElem? htag⟩
    · exact .inr ⟨tags, hrecord⟩
    · exact .inr ⟨tags, hrecord⟩
    · exact .inr ⟨tags, hrecord⟩
  · rintro (⟨rfl, tag, htag⟩ | ⟨tags, hrecord⟩)
    · obtain ⟨k, hk⟩ := List.mem_iff_getElem?.1 htag
      refine @ImportReport.About.badTag report view k ⟨i, none, (badTagError (tag, i)).error⟩ tag i
        ?_ hk
      rw [herrors, List.getElem?_append_left
        (by rw [List.length_map]; exact (List.getElem?_eq_some_iff.1 hk).1), List.getElem?_map, hk]
      rfl
    · have hmem := (perm_entries ps).mem_iff.2
        (hindices ▸ List.mem_range.2 (List.getElem?_eq_some_iff.1 hrecord).1)
      rw [List.mem_append, List.mem_append, List.mem_map, List.mem_map, List.mem_map] at hmem
      obtain (⟨entry, hentry, rfl⟩ | ⟨entry, hentry, rfl⟩) | ⟨entry, hentry, rfl⟩ := hmem
      · exact .accepted (haccepted ▸ hentry) hrecord
      · exact .duplicate (hduplicates ▸ hentry) hrecord
      · refine .error ?_ hrecord
        rw [herrors, List.drop_left' (List.length_map _)]
        exact hentry

omit [UnicodeData] in
/-- A returned record stands where its number in the list says. -/
theorem getElem?_returned {view : FileView} {i j : Nat} {tags : List TagEvent}
    (h : view.returned[i]? = some (tags, j)) :
    view.ended[j]? = some tags ∧ filled tags = true := by
  have hmem := List.mem_filter.1 (List.mem_of_getElem? h)
  exact ⟨List.mem_zipIdx_iff_getElem?.1 hmem.1, hmem.2⟩

omit [UnicodeData] in
/-- No file record is returned twice. -/
theorem returned_inj {view : FileView} {i i' j : Nat} {tags tags' : List TagEvent}
    (h : view.returned[i]? = some (tags, j)) (h' : view.returned[i']? = some (tags', j)) :
    i = i' := by
  have hat : (view.returned.map Prod.snd)[i]? = some j := by rw [List.getElem?_map, h]; rfl
  have hat' : (view.returned.map Prod.snd)[i']? = some j := by rw [List.getElem?_map, h']; rfl
  exact (List.getElem?_inj (List.getElem?_eq_some_iff.1 hat).1 nodup_filter_zipIdx).1
    (hat.trans hat'.symm)

omit [UnicodeData] in
theorem length_returned (view : FileView) : view.returned.length = view.ended.countP filled := by
  have hmap : (view.ended.zipIdx.map Prod.fst).countP filled = view.ended.countP filled := by
    rw [List.zipIdx_map_fst]
  rw [← hmap, List.countP_map, List.countP_eq_length_filter]
  rfl

omit [UnicodeData] in
/-- A reported tag is a bad tag of a file record, or stands behind the last `<EOR>`. -/
theorem mem_reported {view : FileView} {j : Nat} : (∃ tag, (tag, j) ∈ view.reported) ↔
    (∃ tags, view.ended[j]? = some tags ∧ badTags tags ≠ []) ∨
      (j = view.ended.length ∧ badTags view.current ≠ []) := by
  have hnonempty : ∀ tags : List TagEvent, (∃ tag, tag ∈ badTags tags) ↔ badTags tags ≠ [] :=
    fun tags ↦ ⟨fun h ↦ h.elim fun _ hmem ↦ List.ne_nil_of_mem hmem, List.exists_mem_of_ne_nil _⟩
  have hat : (∃ tag, (tag, j) ∈ view.reported) ↔
      ∃ tags, (view.ended ++ [view.current])[j]? = some tags ∧ badTags tags ≠ [] := by
    rw [FileView.reported]
    constructor
    · rintro ⟨tag, hmem⟩
      obtain ⟨⟨tags, j'⟩, hr, htag⟩ := List.mem_flatMap.1 hmem
      obtain ⟨tag', htag', heq⟩ := List.mem_map.1 htag
      cases heq
      exact ⟨tags, List.mem_zipIdx_iff_getElem?.1 hr, (hnonempty tags).1 ⟨tag, htag'⟩⟩
    · rintro ⟨tags, hj, hbad⟩
      obtain ⟨tag, htag⟩ := (hnonempty tags).2 hbad
      exact ⟨tag, List.mem_flatMap.2 ⟨(tags, j), List.mem_zipIdx_iff_getElem?.2 hj,
        List.mem_map_of_mem htag⟩⟩
  rw [hat]
  rcases Nat.lt_trichotomy j view.ended.length with hlt | rfl | hgt
  · rw [List.getElem?_append_left hlt]
    exact (or_iff_left fun h ↦ Nat.ne_of_lt hlt h.1).symm
  · rw [List.getElem?_append_right le_rfl, Nat.sub_self, List.getElem?_eq_none le_rfl]
    simp
  · rw [List.getElem?_eq_none (by rw [List.length_append]; exact hgt),
      List.getElem?_eq_none (Nat.le_of_lt hgt)]
    simp [Nat.ne_of_gt hgt]

omit [UnicodeData] in
/-- A bad tag of a file record that is in step is not mistaken. -/
theorem FileView.InStep.index_iff {view : FileView} (h : view.InStep) {j : Nat}
    (hreported : ∃ tag, (tag, j) ∈ view.reported) {i j' : Nat} {tags' : List TagEvent}
    (hreturned : view.returned[i]? = some (tags', j')) : i = j ↔ j' = j := by
  have hi := (List.getElem?_eq_some_iff.1 hreturned).1
  obtain ⟨hended, hfilled⟩ := getElem?_returned hreturned
  rw [length_returned] at hi
  obtain ⟨tags, hj, hbad⟩ | ⟨rfl, -⟩ := mem_reported.1 hreported
  · obtain hall | ⟨hempty, hcount⟩ := h j tags hj hbad
    · -- Nothing is left out before the record.
      have hlt := (List.getElem?_eq_some_iff.1 hj).1
      have hself : filled tags = true :=
        hall tags (List.mem_iff_getElem?.2 ⟨j, by rw [List.getElem?_take_of_lt j.lt_succ_self, hj]⟩)
      have hplace : (view.returned.map Prod.snd)[j]? = some j :=
        (filter_zipIdx_eq_iff hj hself).2 fun y hy ↦
          hall y (List.take_subset_take_left _ (Nat.le_succ j) hy)
      obtain ⟨⟨tags'', j''⟩, hat, heq⟩ := Option.map_eq_some_iff.1 (List.getElem?_map.symm.trans hplace)
      obtain rfl : j'' = j := heq
      constructor
      · rintro rfl
        rw [hat] at hreturned
        exact (congrArg Prod.snd (Option.some.inj hreturned)).symm
      · rintro rfl
        exact returned_inj hreturned hat
    · refine iff_of_false (by omega) ?_
      rintro rfl
      rw [hj] at hended
      rw [Option.some.inj hended, hfilled] at hempty
      cases hempty
  · have hj' := (List.getElem?_eq_some_iff.1 hended).1
    have hcount := List.countP_le_length (p := filled) (l := view.ended)
    exact iff_of_false (by omega) (by omega)

/-- **The two numberings agree** if and only if every file record with a bad tag is in step. -/
theorem indicesIdentify_iff {env : Env} {raw : List UInt8} {operator : String} {c c' : Collection}
    {report : ImportReport} (h : (importQsosFromBytes env raw operator : Db _) c = .ok report c') :
    report.IndicesIdentify (fileView (decodeUtf8 raw)) ↔ (fileView (decodeUtf8 raw)).InStep := by
  have habout := fun i j ↦ @about_iff _ env raw operator c c' report h i j
  generalize fileView (decodeUtf8 raw) = view at habout ⊢
  constructor
  · intro hidentify j tags hj hbad
    have hreported : report.About view j j :=
      (habout j j).2 (.inl ⟨rfl, mem_reported.2 (.inl ⟨tags, hj, hbad⟩)⟩)
    by_cases hcount : view.ended.countP filled ≤ j
    · refine .inr ⟨?_, hcount⟩
      rw [← Bool.not_eq_true]
      intro hfilled
      have hat := getElem?_filter_zipIdx hj hfilled
      have hlt := (List.getElem?_eq_some_iff.1 hat).1
      have heq := (hidentify _ j j j ((habout _ j).2 (.inr ⟨tags, hat⟩)) hreported).2 rfl
      rw [heq] at hlt
      exact Nat.not_lt.2 hcount (length_returned view ▸ hlt)
    · left
      have hlt : j < view.returned.length := by
        rw [length_returned]
        exact Nat.not_le.1 hcount
      obtain ⟨⟨tags', j'⟩, hat⟩ : ∃ r, view.returned[j]? = some r :=
        ⟨_, List.getElem?_eq_getElem hlt⟩
      obtain rfl : j' = j :=
        (hidentify j j j' j ((habout j j').2 (.inr ⟨tags', hat⟩)) hreported).1 rfl
      obtain ⟨hended, hfilled⟩ := getElem?_returned hat
      obtain rfl := Option.some.inj (hj.symm.trans hended)
      have hbefore := (filter_zipIdx_eq_iff hj hfilled).1 (by
        rw [List.getElem?_map]
        exact congrArg (Option.map Prod.snd) hat)
      intro y hy
      rw [List.take_add_one, hj] at hy
      obtain hy | hy := List.mem_append.1 hy
      · exact hbefore y hy
      · obtain rfl := List.mem_singleton.1 hy
        exact hfilled
  · intro hstep i i' j j' hi hi'
    obtain ⟨rfl, htag⟩ | ⟨tags, hreturned⟩ := (habout i j).1 hi
    · obtain ⟨rfl, -⟩ | ⟨tags', hreturned'⟩ := (habout i' j').1 hi'
      · exact Iff.rfl
      · exact eq_comm.trans ((hstep.index_iff htag hreturned').trans eq_comm)
    · obtain ⟨rfl, htag'⟩ | ⟨tags', hreturned'⟩ := (habout i' j').1 hi'
      · exact hstep.index_iff htag' hreturned
      · constructor
        · rintro rfl
          exact congrArg Prod.snd (Option.some.inj (hreturned.symm.trans hreturned'))
        · rintro rfl
          exact returned_inj hreturned hreturned'

end

section

attribute [local instance] UnicodeData.ascii

/-- A file with an `<EOR>` before its only contact, which has a bad tag. -/
@[irreducible] def Sample.doubleEor : List UInt8 := encodeUtf8
  "<EOR><FREQ:x><CALL:5>K1ABC<BAND:3>20m<MODE:2>CW<QSO_DATE:8>20240101<TIME_ON:4>1200<EOR>".toList

/-- The contact is accepted as record 0, and its bad tag is one of record 1. -/
theorem not_indicesIdentify_doubleEor : ∃ report c,
    (importQsosFromBytes Sample.env Sample.doubleEor "W1AW" : Db _)
      (.empty "ollog.w1aw_qsos" true) = .ok report c ∧
    report.accepted.map (·.recordIndex) = [0] ∧ report.errors.map (·.recordIndex) = [1] ∧
    (fileView (decodeUtf8 Sample.doubleEor)).returned.map Prod.snd = [1] ∧
    ¬ report.IndicesIdentify (fileView (decodeUtf8 Sample.doubleEor)) := by
  have hrun : (match (importQsosFromBytes Sample.env Sample.doubleEor "W1AW" : Db _)
      (.empty "ollog.w1aw_qsos" true) with
      | .ok report _ => decide (report.accepted.map (·.recordIndex) = [0]) &&
          decide (report.errors.map (·.recordIndex) = [1])
      | .error _ _ => false) = true := by decide +kernel
  have hreturned : (fileView (decodeUtf8 Sample.doubleEor)).returned.map Prod.snd = [1] := by
    decide +kernel
  have hreported : (fileView (decodeUtf8 Sample.doubleEor)).reported = [("FREQ:x".toList, 1)] := by
    decide +kernel
  cases himport : (importQsosFromBytes Sample.env Sample.doubleEor "W1AW" : Db _)
      (.empty "ollog.w1aw_qsos" true) with
  | error exc c =>
    rw [himport] at hrun
    cases hrun
  | ok report c =>
    rw [himport, Bool.and_eq_true, decide_eq_true_eq, decide_eq_true_eq] at hrun
    refine ⟨report, c, rfl, hrun.1, hrun.2, hreturned, fun h ↦ ?_⟩
    have hat : ((fileView (decodeUtf8 Sample.doubleEor)).returned.map Prod.snd)[0]? = some 1 := by
      rw [hreturned]
      rfl
    obtain ⟨⟨tags, j⟩, hat, hj⟩ := Option.map_eq_some_iff.1 (List.getElem?_map.symm.trans hat)
    obtain rfl : j = 1 := hj
    have haccepted := (about_iff himport).2 (.inr ⟨tags, hat⟩)
    have hbad := (about_iff himport).2 (.inl ⟨rfl, _, hreported ▸ List.mem_singleton.2 rfl⟩)
    exact absurd ((h 0 1 1 1 haccepted hbad).2 rfl) (by decide)

/-- In a file without bad tags the numbers are those of the returned records. -/
theorem indicesIdentify_of_contact : ∃ report c,
    (importQsosFromBytes Sample.env Sample.file "W1AW" : Db _)
      (.empty "ollog.w1aw_qsos" true) = .ok report c ∧
    report.IndicesIdentify (fileView (decodeUtf8 Sample.file)) := by
  have hrun : (match (importQsosFromBytes Sample.env Sample.file "W1AW" : Db _)
      (.empty "ollog.w1aw_qsos" true) with
      | .ok _ _ => true
      | .error _ _ => false) = true := by decide +kernel
  have hnone : ((fileView (decodeUtf8 Sample.file)).ended.all fun tags ↦
      (badTags tags).isEmpty) = true := by decide +kernel
  cases himport : (importQsosFromBytes Sample.env Sample.file "W1AW" : Db _)
      (.empty "ollog.w1aw_qsos" true) with
  | error exc c =>
    rw [himport] at hrun
    cases hrun
  | ok report c =>
    refine ⟨report, c, rfl, (indicesIdentify_iff himport).2 fun j tags hj hbad ↦ ?_⟩
    exact absurd (List.isEmpty_iff.1 (List.all_eq_true.1 hnone tags (List.mem_of_getElem? hj))) hbad

end

end Ollog

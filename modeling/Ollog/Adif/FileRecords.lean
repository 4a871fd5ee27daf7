import Ollog.Adif.Events

/-!
# The records of a file

A file is a sequence of records, each of which ends with an `<EOR>`.  Some of them are empty: there
may be an `<EOR>` in the header, or two in a row.  `FileView` counts them all, and keeps the tags
that belong to each.

The parser keeps less: it returns the records that have a field, and it has an error for every bad
tag, with the number of its record (`parseAdi_eq`).  So the position of a record in what is returned
is not its number in the file, unless every record before it has a field
(`getElem?_filter_zipIdx`).
-/

set_option autoImplicit false

namespace Ollog

/-! ## Numbered lists -/

section

variable {α : Type} {p : α → Bool} {l : List α}

/-- In a list from which some elements are left out, an element stands behind those before it that
are not. -/
theorem getElem?_filter_zipIdx {j : Nat} {x : α} (hj : l[j]? = some x) (hx : p x = true) :
    (l.zipIdx.filter fun y ↦ p y.1)[(l.take j).countP p]? = some (x, j) := by
  obtain ⟨hlt, rfl⟩ := List.getElem?_eq_some_iff.1 hj
  have hsplit : l = l.take j ++ l[j] :: l.drop (j + 1) := by
    rw [List.getElem_cons_drop, List.take_append_drop]
  have hlength : (l.take j).length = j := List.length_take_of_le (Nat.le_of_lt hlt)
  have hcount : ((l.take j).zipIdx.filter fun y ↦ p y.1).length = (l.take j).countP p := by
    have hmap : ((l.take j).zipIdx.map Prod.fst).countP p = (l.take j).countP p := by
      rw [List.zipIdx_map_fst]
    rw [← hmap, List.countP_map, List.countP_eq_length_filter]
    rfl
  have hzip : l.zipIdx = (l.take j).zipIdx ++ (l[j], j) :: (l.drop (j + 1)).zipIdx (j + 1) := by
    have happend := congrArg List.zipIdx hsplit
    rw [List.zipIdx_append, List.zipIdx_cons, hlength, Nat.zero_add] at happend
    exact happend
  rw [hzip, List.filter_append, List.getElem?_append_right (by rw [hcount]), hcount, Nat.sub_self,
    List.filter_cons, if_pos hx]
  rfl

theorem nodup_filter_zipIdx : ((l.zipIdx.filter fun y ↦ p y.1).map Prod.snd).Nodup := by
  have hsublist : ((l.zipIdx.filter fun y ↦ p y.1).map Prod.snd).Sublist (l.zipIdx.map Prod.snd) :=
    List.filter_sublist.map _
  refine hsublist.nodup ?_
  rw [List.zipIdx_map_snd]
  exact List.nodup_range'

/-- An element keeps its number exactly if nothing before it is left out. -/
theorem filter_zipIdx_eq_iff {j : Nat} {x : α} (hj : l[j]? = some x) (hx : p x = true) :
    ((l.zipIdx.filter fun y ↦ p y.1).map Prod.snd)[j]? = some j ↔ ∀ y ∈ l.take j, p y = true := by
  obtain ⟨hlt, -⟩ := List.getElem?_eq_some_iff.1 hj
  have hlength : (l.take j).length = j := List.length_take_of_le (Nat.le_of_lt hlt)
  have hat : ((l.zipIdx.filter fun y ↦ p y.1).map Prod.snd)[(l.take j).countP p]? = some j := by
    rw [List.getElem?_map, getElem?_filter_zipIdx hj hx]
    rfl
  constructor
  · intro h
    have hbound := (List.getElem?_eq_some_iff.1 hat).1
    have hcount := (List.getElem?_inj hbound nodup_filter_zipIdx).1 (hat.trans h.symm)
    exact List.countP_eq_length.1 (hcount.trans hlength.symm)
  · intro h
    rwa [List.countP_eq_length.2 h, hlength] at hat

end

/-! ## The view -/

/-- What the cursor has come to, file record by file record. -/
structure FileView where
  inHeader : Bool
  /-- The tags of each record that has ended. -/
  ended : List (List TagEvent) := []
  /-- The tags behind the last `<EOR>`. -/
  current : List TagEvent := []

def FileView.apply (v : FileView) : TagEvent → FileView
  | .endOfHeader => { v with inHeader := false }
  | .endOfRecord => { v with ended := v.ended ++ [v.current], current := [] }
  | event => if v.inHeader then v else { v with current := v.current ++ [event] }

/-- A record with one more field, if the tag is a field. -/
def addField (record : Record) : TagEvent → Record
  | .field name value => record.insert name value
  | _ => record

/-- The fields of a file record. -/
def content (tags : List TagEvent) : Record := tags.foldl addField ∅

/-- A file record has a field. -/
def filled (tags : List TagEvent) : Bool := !(content tags).isEmpty

/-- The bad tags of a file record. -/
def badTags (tags : List TagEvent) : List (List Char) :=
  tags.filterMap fun event ↦ match event with
    | .badLength tag => some tag
    | _ => none

/-- The file records that are returned, with their numbers. -/
def FileView.returned (v : FileView) : List (List TagEvent × Nat) :=
  v.ended.zipIdx.filter fun r ↦ filled r.1

/-- The bad tags that are reported, with the numbers of their file records. -/
def FileView.reported (v : FileView) : List (List Char × Nat) :=
  (v.ended ++ [v.current]).zipIdx.flatMap fun r ↦ (badTags r.1).map fun tag ↦ (tag, r.2)

/-- The error for a bad tag. -/
def badTagError (item : List Char × Nat) : ParseError :=
  ⟨item.2, "Invalid byte length in tag: <" ++ String.ofList item.1 ++ ">"⟩

/-! ## The parser refines it -/

/-- The state of the parser says the same as the view. -/
structure ParseState.Refines (s : ParseState) (v : FileView) : Prop where
  inHeader : s.inHeader = v.inHeader
  current : s.currentRecord = content v.current
  header : v.inHeader = true → v.current = []
  index : s.recordIndex = v.ended.length
  records : s.records = v.returned.map fun r ↦ content r.1
  errors : s.errors = v.reported.map badTagError

theorem content_append (tags : List TagEvent) (event : TagEvent) :
    content (tags ++ [event]) = addField (content tags) event :=
  List.foldl_concat ..

theorem badTags_append (tags tags' : List TagEvent) :
    badTags (tags ++ tags') = badTags tags ++ badTags tags' := List.filterMap_append

theorem returned_endOfRecord (v : FileView) : (v.apply .endOfRecord).returned =
    v.returned ++ if filled v.current then [(v.current, v.ended.length)] else [] := by
  rw [FileView.returned, FileView.returned, FileView.apply]
  dsimp only
  rw [List.zipIdx_append, List.filter_append, List.zipIdx_singleton, Nat.zero_add,
    List.filter_singleton]
  cases filled v.current <;> rfl

theorem reported_endOfRecord (v : FileView) : (v.apply .endOfRecord).reported = v.reported := by
  rw [FileView.reported, FileView.reported, FileView.apply]
  dsimp only
  rw [List.zipIdx_append, List.flatMap_append, List.zipIdx_singleton, List.flatMap_singleton]
  exact List.append_nil _

theorem reported_append (v : FileView) (event : TagEvent) :
    FileView.reported { v with current := v.current ++ [event] } =
      v.reported ++ (badTags [event]).map fun tag ↦ (tag, v.ended.length) := by
  rw [FileView.reported, FileView.reported]
  dsimp only
  rw [List.zipIdx_append, List.zipIdx_append, List.flatMap_append, List.flatMap_append,
    List.zipIdx_singleton, List.zipIdx_singleton, List.flatMap_singleton, List.flatMap_singleton,
    badTags_append, List.map_append, List.append_assoc, Nat.zero_add]

/-- A tag of a record. -/
theorem ParseState.Refines.append {s t : ParseState} {v : FileView} (h : s.Refines v)
    (hv : v.inHeader = false) {event : TagEvent} (hheader : t.inHeader = s.inHeader)
    (hindex : t.recordIndex = s.recordIndex) (hrecords : t.records = s.records)
    (hcurrent : t.currentRecord = addField s.currentRecord event)
    (herrors : t.errors =
      s.errors ++ (badTags [event]).map fun tag ↦ badTagError (tag, s.recordIndex)) :
    t.Refines { v with current := v.current ++ [event] } := by
  refine ⟨hheader.trans h.inHeader, ?_, fun hin ↦ ?_, hindex.trans h.index,
    hrecords.trans h.records, ?_⟩
  · rw [hcurrent, content_append, h.current]
  · rw [hv] at hin
    cases hin
  · rw [herrors, reported_append, List.map_append, List.map_map, h.errors, h.index]
    rfl

/-- The end of a record. -/
theorem ParseState.Refines.endOfRecord {s : ParseState} {v : FileView} (h : s.Refines v) :
    (s.apply .endOfRecord).Refines (v.apply .endOfRecord) := by
  have hindex : s.recordIndex + 1 = (v.ended ++ [v.current]).length := by
    rw [List.length_append, List.length_singleton, h.index]
  have herrors : s.errors = (v.apply .endOfRecord).reported.map badTagError := by
    rw [reported_endOfRecord, h.errors]
  have hfull : (!s.currentRecord.isEmpty) = filled v.current := by rw [h.current, filled]
  have hheader : filled v.current = true → s.inHeader = false := fun hfilled ↦ by
    rw [h.inHeader, ← Bool.not_eq_true]
    intro hin
    rw [h.header hin] at hfilled
    exact absurd hfilled (by decide)
  cases hfilled : filled v.current with
  | true =>
    rw [hfilled, Bool.not_eq_true'] at hfull
    rw [apply_endOfRecord (hheader hfilled) hfull]
    refine ⟨h.inHeader, rfl, fun _ ↦ rfl, hindex, ?_, herrors⟩
    rw [returned_endOfRecord, hfilled, List.map_append, ← h.records, h.current]
    rfl
  | false =>
    rw [hfilled, Bool.not_eq_false'] at hfull
    rw [apply_endOfRecord_of_isEmpty hfull]
    refine ⟨h.inHeader, Std.ExtTreeMap.isEmpty_iff.1 hfull, fun _ ↦ rfl, hindex, ?_, herrors⟩
    rw [returned_endOfRecord, hfilled, List.map_append, ← h.records]
    exact (List.append_nil _).symm

/-- **A tag** keeps the two in step. -/
theorem ParseState.Refines.apply {s : ParseState} {v : FileView} (h : s.Refines v)
    (event : TagEvent) : (s.apply event).Refines (v.apply event) := by
  cases event with
  | endOfHeader => exact ⟨rfl, h.current, fun hin ↦ (nomatch hin), h.index, h.records, h.errors⟩
  | endOfRecord => exact h.endOfRecord
  | other =>
    rw [FileView.apply, ParseState.apply]
    · split
      · exact h
      · rename_i hin
        exact h.append (Bool.not_eq_true _ ▸ hin) rfl rfl rfl rfl (List.append_nil _).symm
    all_goals simp
  | field name value =>
    rw [FileView.apply, ParseState.apply, h.inHeader]
    · split
      · exact h
      · rename_i hin
        exact h.append (Bool.not_eq_true _ ▸ hin) h.inHeader.symm rfl rfl rfl
          (List.append_nil _).symm
    all_goals simp
  | badLength tag =>
    rw [FileView.apply, ParseState.apply, h.inHeader]
    · split
      · exact h
      · rename_i hin
        exact h.append (Bool.not_eq_true _ ▸ hin) h.inHeader.symm rfl rfl rfl rfl
    all_goals simp

section

variable [UnicodeData]

/-- The file records of a text. -/
def fileView (text : List Char) : FileView :=
  (events text).foldl FileView.apply
    { inHeader := decide ("<EOH>".toList <:+: upperChars text) }

/-- **The parser** returns the file records that have a field and have ended, and reports the bad
tags with the numbers of their file records. -/
theorem parseAdi_eq (text : List Char) : parseAdi text =
    ((fileView text).returned.map fun r ↦ content r.1, (fileView text).reported.map badTagError) := by
  have hrun : ∀ (events : List TagEvent) (s : ParseState) (v : FileView), s.Refines v →
      (events.foldl ParseState.apply s).Refines (events.foldl FileView.apply v) := by
    intro events
    induction events with
    | nil => exact fun _ _ h ↦ h
    | cons event events ih => exact fun s v h ↦ ih _ _ (h.apply event)
  have hfinal := hrun (events text) { inHeader := decide ("<EOH>".toList <:+: upperChars text) }
    { inHeader := decide ("<EOH>".toList <:+: upperChars text) }
    ⟨rfl, rfl, fun _ ↦ rfl, rfl, rfl, rfl⟩
  rw [parseAdi, parse_eq_foldl]
  exact Prod.ext hfinal.records hfinal.errors

end

end Ollog

import Ollog.Adif.Parser

/-!
# The tags of a file

Where the cursor of the parser goes depends on the text alone, and not on what has been read so far.
So a text is a list of events, `events text`, one for each tag the cursor comes to, and the parser is
a fold over them (`parse_eq_foldl`).
-/

set_option autoImplicit false

namespace Ollog

section

variable [UnicodeData]

/-- What a tag says. -/
inductive TagEvent
  | endOfHeader
  | endOfRecord
  | field (name value : String)
  | badLength (tag : List Char)
  | other
  deriving DecidableEq, Repr

/-- What a tag says, and the text behind it and its value. -/
def readTag (tag rest : List Char) : TagEvent × List Char :=
  if upperChars tag = "EOH".toList then (.endOfHeader, rest)
  else if upperChars tag = "EOR".toList then (.endOfRecord, rest)
  else match splitChars ':' tag with
    | name :: length :: _ =>
      match intOfText length with
      | none => (.badLength tag, rest)
      | some byteLength =>
        let value := decodeUtf8 (takeBytes byteLength (encodeUtf8 rest))
        (.field (String.ofList (upperChars name)) (String.ofList value), rest.drop value.length)
    | _ => (.other, rest)

/-- What the parser does with a tag. -/
def ParseState.apply (s : ParseState) : TagEvent → ParseState
  | .endOfHeader => { s with inHeader := false }
  | .endOfRecord =>
    if !s.inHeader && !s.currentRecord.isEmpty then
      { s with
        records := s.records ++ [s.currentRecord]
        currentRecord := ∅
        recordIndex := s.recordIndex + 1 }
    else { s with recordIndex := s.recordIndex + 1 }
  | .field name value =>
    if s.inHeader then s else { s with currentRecord := s.currentRecord.insert name value }
  | .badLength tag =>
    if s.inHeader then s
    else { s with errors := s.errors ++ [⟨s.recordIndex,
      "Invalid byte length in tag: <" ++ String.ofList tag ++ ">"⟩] }
  | .other => s

theorem handleTag_eq (s : ParseState) (tag rest : List Char) :
    handleTag s tag rest = (s.apply (readTag tag rest).1, (readTag tag rest).2) := by
  rw [handleTag, readTag]
  by_cases heoh : upperChars tag = "EOH".toList
  · rw [if_pos heoh, if_pos heoh]
    rfl
  by_cases heor : upperChars tag = "EOR".toList
  · rw [if_neg heoh, if_neg heoh, if_pos heor, if_pos heor]
    rfl
  rw [if_neg heoh, if_neg heoh, if_neg heor, if_neg heor]
  cases splitChars ':' tag with
  | nil => rfl
  | cons name parts =>
    cases parts with
    | nil => rfl
    | cons length parts =>
      dsimp only
      rw [parseData]
      cases intOfText length <;> rfl

/-- The next tag, and the text behind it and its value. -/
def nextTag (text : List Char) : Option (TagEvent × List Char) :=
  match text.dropWhile (· != '<') with
  | [] => none
  | _ :: afterLt =>
    match afterLt.dropWhile (· != '>') with
    | [] => none
    | _ :: rest => some (readTag (afterLt.takeWhile (· != '>')) rest)

theorem parseTag_eq (s : ParseState) (text : List Char) :
    parseTag s text = (nextTag text).map fun (event, rest) ↦ (s.apply event, rest) := by
  rw [parseTag, nextTag]
  cases text.dropWhile (· != '<') with
  | nil => rfl
  | cons lt afterLt =>
    dsimp only
    cases afterLt.dropWhile (· != '>') with
    | nil => rfl
    | cons gt rest => exact congrArg some (handleTag_eq ..)

/-- At most so many tags of a text. -/
def eventsWithin : Nat → List Char → List TagEvent
  | 0, _ => []
  | fuel + 1, text =>
    match nextTag text with
    | none => []
    | some (event, rest) => event :: eventsWithin fuel rest

/-- The tags of a text, in the order the cursor comes to them. -/
def events (text : List Char) : List TagEvent := eventsWithin text.length text

/-- **The parser is a fold** over the tags of its text. -/
theorem parse_eq_foldl (s : ParseState) (text : List Char) :
    parse s text = (events text).foldl ParseState.apply s := by
  have hloop : ∀ fuel s text,
      parseLoop fuel s text = (eventsWithin fuel text).foldl ParseState.apply s := by
    intro fuel
    induction fuel with
    | zero => exact fun _ _ ↦ rfl
    | succ fuel ih =>
      intro s text
      rw [parseLoop, eventsWithin, parseTag_eq]
      cases nextTag text with
      | none => rfl
      | some next => exact ih (s.apply next.1) next.2
  exact hloop _ s text

/-! ## Records -/

/-- Whether a field is followed by the end of its record; `begun` says that a field has come
already. -/
def completes (begun : Bool) : List TagEvent → Bool
  | [] => false
  | .endOfRecord :: events => begun || completes false events
  | .field _ _ :: events => completes true events
  | _ :: events => completes begun events

omit [UnicodeData] in
theorem apply_field {s : ParseState} (hs : s.inHeader = false) (name value : String) :
    s.apply (.field name value) = { s with currentRecord := s.currentRecord.insert name value } := by
  rw [ParseState.apply, hs]
  rfl

omit [UnicodeData] in
theorem apply_badLength {s : ParseState} (hs : s.inHeader = false) (tag : List Char) :
    s.apply (.badLength tag) = { s with errors := s.errors ++ [⟨s.recordIndex,
      "Invalid byte length in tag: <" ++ String.ofList tag ++ ">"⟩] } := by
  rw [ParseState.apply, hs]
  rfl

omit [UnicodeData] in
/-- The end of a record that has fields. -/
theorem apply_endOfRecord {s : ParseState} (hs : s.inHeader = false)
    (hcur : s.currentRecord.isEmpty = false) : s.apply .endOfRecord = { s with
      records := s.records ++ [s.currentRecord]
      currentRecord := ∅
      recordIndex := s.recordIndex + 1 } := by
  rw [ParseState.apply, hs, hcur]
  rfl

omit [UnicodeData] in
/-- The end of a record without fields. -/
theorem apply_endOfRecord_of_isEmpty {s : ParseState} (hcur : s.currentRecord.isEmpty = true) :
    s.apply .endOfRecord = { s with recordIndex := s.recordIndex + 1 } := by
  rw [ParseState.apply, hcur, Bool.not_true, Bool.and_false, if_neg Bool.false_ne_true]

omit [UnicodeData] in
theorem isEmpty_insert (record : Record) (name value : String) :
    (record.insert name value).isEmpty = false := by
  rw [← Bool.not_eq_true, Std.ExtTreeMap.isEmpty_iff]
  exact Std.ExtTreeMap.insert_ne_empty

omit [UnicodeData] in
/-- No tag takes a record away. -/
theorem records_prefix_foldl_apply (events : List TagEvent) (s : ParseState) :
    s.records <+: (events.foldl ParseState.apply s).records := by
  induction events generalizing s with
  | nil => exact List.prefix_rfl
  | cons event events ih =>
    refine List.IsPrefix.trans ?_ (ih (s.apply event))
    unfold ParseState.apply
    split
    · exact List.prefix_rfl
    · split
      · exact List.prefix_append ..
      · exact List.prefix_rfl
    · split <;> exact List.prefix_rfl
    · split <;> exact List.prefix_rfl
    · exact List.prefix_rfl

omit [UnicodeData] in
/-- The count of the records has no influence on them. -/
theorem records_foldl_apply_congr {s t : ParseState} (hheader : s.inHeader = t.inHeader)
    (hrecords : s.records = t.records) (hcur : s.currentRecord = t.currentRecord)
    (events : List TagEvent) : (events.foldl ParseState.apply s).records =
      (events.foldl ParseState.apply t).records := by
  induction events generalizing s t with
  | nil => exact hrecords
  | cons event events ih =>
    have hstep : (s.apply event).inHeader = (t.apply event).inHeader ∧
        (s.apply event).records = (t.apply event).records ∧
        (s.apply event).currentRecord = (t.apply event).currentRecord := by
      obtain ⟨inHeader, records, errors, currentRecord, recordIndex⟩ := s
      dsimp only at hheader hrecords hcur
      subst hheader hrecords hcur
      cases event with
      | endOfHeader => exact ⟨rfl, rfl, rfl⟩
      | other => exact ⟨rfl, rfl, rfl⟩
      | endOfRecord =>
        dsimp only [ParseState.apply]
        split <;> exact ⟨rfl, rfl, rfl⟩
      | field name value =>
        dsimp only [ParseState.apply]
        split <;> exact ⟨rfl, rfl, rfl⟩
      | badLength tag =>
        dsimp only [ParseState.apply]
        split <;> exact ⟨rfl, rfl, rfl⟩
    exact ih hstep.1 hstep.2.1 hstep.2.2

omit [UnicodeData] in
/-- Behind the header, a record is returned if one is complete. -/
theorem records_foldl_apply_eq_iff {s : ParseState} (hs : s.inHeader = false)
    (events : List TagEvent) : (events.foldl ParseState.apply s).records = s.records ↔
      completes (!s.currentRecord.isEmpty) events = false := by
  induction events generalizing s with
  | nil => exact iff_of_true rfl rfl
  | cons event events ih =>
    rw [List.foldl_cons]
    cases event with
    | endOfHeader => exact @ih { s with inHeader := false } rfl
    | other => exact ih hs
    | badLength tag =>
      rw [apply_badLength hs]
      exact @ih { s with errors := _ } hs
    | field name value =>
      have hrest := @ih { s with currentRecord := s.currentRecord.insert name value } hs
      rw [isEmpty_insert] at hrest
      rw [apply_field hs]
      exact hrest
    | endOfRecord =>
      by_cases hempty : s.currentRecord.isEmpty = true
      · have hrest := @ih { s with recordIndex := s.recordIndex + 1 } hs
        rw [apply_endOfRecord_of_isEmpty hempty, completes, hempty]
        rw [hempty] at hrest
        exact hrest
      · rw [Bool.not_eq_true] at hempty
        rw [apply_endOfRecord hs hempty, completes, hempty]
        refine iff_of_false (fun heq ↦ ?_) (by simp)
        have hlength := (records_prefix_foldl_apply events { s with
          records := s.records ++ [s.currentRecord]
          currentRecord := ∅
          recordIndex := s.recordIndex + 1 }).length_le
        rw [heq] at hlength
        simp only [List.length_append, List.length_singleton] at hlength
        omega

end

end Ollog

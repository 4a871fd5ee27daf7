import Ollog.Adif.Events
import Ollog.Adif.Serializer

/-!
# Where the header ends

The parser decides by a search through the whole text whether there is a header, and then reads the
header like everything else, one tag after the other.  So a value that holds `<EOH>` makes a file
without a header look like one that is nothing but header (`parseAdi_serializeAdi_iff`), and a tag
in a header that is not closed, or whose value is too long, takes the end of the header with it
(`records_behind_header_iff`).
-/

set_option autoImplicit false

namespace Ollog

/-- `<EOH>`. -/
def headerMarker : List Char := "<EOH>".toList

/-! ## Looking for the marker -/

/-- A match at the front of a text stops before the next `<`. -/
theorem marker_prefix_of_lt {text rest : List Char} (hne : text ≠ [])
    (h : headerMarker <+: text ++ '<' :: rest) : headerMarker <+: text := by
  obtain ⟨tail, htail⟩ := h
  by_cases hlength : headerMarker.length ≤ text.length
  · exact List.prefix_of_prefix_length_le ⟨tail, htail⟩ (List.prefix_append ..) hlength
  · -- The `<` would have to be a character of the marker, behind its first one.
    have hchar : headerMarker[text.length]? = some '<' := by
      have hat : (headerMarker ++ tail)[text.length]? = some '<' := by
        rw [htail, List.getElem?_append_right le_rfl, Nat.sub_self]
        rfl
      rwa [List.getElem?_append_left (Nat.not_le.1 hlength)] at hat
    have hall : ∀ i < headerMarker.length, 0 < i → headerMarker[i]? ≠ some '<' := by decide
    exact absurd hchar
      (hall _ (Nat.not_le.1 hlength) (List.length_pos_iff.2 hne))

/-- A `<` takes a text apart. -/
theorem marker_append_lt (text rest : List Char) :
    headerMarker <:+: text ++ '<' :: rest ↔
      headerMarker <:+: text ∨ headerMarker <:+: '<' :: rest := by
  induction text with
  | nil =>
    have hnil : ¬ headerMarker <:+: [] := by decide
    rw [List.nil_append]
    exact (or_iff_right hnil).symm
  | cons c cs ih =>
    rw [List.cons_append, List.infix_cons_iff, ih, ← or_assoc]
    refine or_congr_left ?_
    rw [List.infix_cons_iff]
    exact or_congr_left ⟨marker_prefix_of_lt (List.cons_ne_nil c cs),
      fun h ↦ h.trans (List.prefix_append (c :: cs) _)⟩

/-- What is not the beginning of the marker is passed over. -/
theorem marker_append_of_not_mem {text : List Char} (h : '<' ∉ text) (rest : List Char) :
    headerMarker <:+: text ++ rest ↔ headerMarker <:+: rest := by
  induction text with
  | nil => exact Iff.rfl
  | cons c cs ih =>
    obtain ⟨hc, hcs⟩ := not_or.1 (mt List.mem_cons.2 h)
    rw [List.cons_append, List.infix_cons_iff, ih hcs]
    refine or_iff_right fun hprefix ↦ hc ?_
    exact (List.cons_prefix_cons.1 hprefix).1

/-- There is no marker in a tag with a colon. -/
theorem marker_append_colon {text : List Char} (h : '>' ∉ text) (rest : List Char) :
    headerMarker <:+: text ++ ':' :: rest ↔ headerMarker <:+: ':' :: rest := by
  induction text with
  | nil => exact Iff.rfl
  | cons c cs ih =>
    obtain ⟨hc, hcs⟩ := not_or.1 (mt List.mem_cons.2 h)
    rw [List.cons_append, List.infix_cons_iff, ih hcs]
    refine or_iff_right fun hprefix ↦ ?_
    obtain ⟨tail, htail⟩ := hprefix
    by_cases hlength : headerMarker.length ≤ (c :: cs).length
    · have hmarker : headerMarker <+: c :: cs :=
        List.prefix_of_prefix_length_le ⟨tail, htail⟩ (List.prefix_append (c :: cs) _) hlength
      exact h (hmarker.subset (by decide))
    · have hchar : headerMarker[(c :: cs).length]? = some ':' := by
        have hat : (headerMarker ++ tail)[(c :: cs).length]? = some ':' := by
          rw [htail, ← List.cons_append, List.getElem?_append_right le_rfl, Nat.sub_self]
          rfl
        rwa [List.getElem?_append_left (Nat.not_le.1 hlength)] at hat
      have hall : ∀ i < headerMarker.length, headerMarker[i]? ≠ some ':' := by decide
      exact absurd hchar (hall _ (Nat.not_le.1 hlength))

section

variable [UnicodeData]

theorem upperChars_repr (n : Nat) : upperChars (toString n).toList = (toString n).toList := by
  have hall : ∀ m < 128, (Char.ofNat m).isDigit = true →
      (Char.ofNat m).toNat < 128 ∧ (Char.ofNat m).toUpper = Char.ofNat m := by decide +kernel
  refine upperChars_eq_self fun c hc ↦ ?_
  rw [Nat.toString_eq_repr, Nat.toList_repr] at hc
  have hdigit := Nat.isDigit_of_mem_toDigits (by decide) (by decide) hc
  have hlt : c.toNat < 128 := Nat.lt_of_le_of_lt (toNat_of_isDigit hdigit).2 (by decide)
  rw [← Char.ofNat_toNat c] at hdigit ⊢
  exact hall _ hlt hdigit

/-- A serialized field has the marker in its value or not at all. -/
theorem marker_serializeField {name : String} (h : TagName name) (value : String)
    {rest : List Char} (hrest : ∃ cs, rest = '<' :: cs) :
    headerMarker <:+: upperChars (serializeField name value) ++ rest ↔
      headerMarker <:+: upperChars value.toList ∨ headerMarker <:+: rest := by
  obtain ⟨cs, rfl⟩ := hrest
  have hname : upperChars name.toList = name.toList := by
    rw [← toList_upper, h.upper_eq]
  have hsymbols : upperChars ['<'] = ['<'] ∧ upperChars [':'] = [':'] ∧ upperChars ['>'] = ['>'] :=
    ⟨upperChars_eq_self (by simp), upperChars_eq_self (by simp), upperChars_eq_self (by simp)⟩
  have htext : upperChars (serializeField name value) ++ '<' :: cs = ('<' :: name.toList) ++ ':' ::
      ((toString (encodeUtf8 value.toList).length).toList ++ ['>'] ++
        (upperChars value.toList ++ '<' :: cs)) := by
    simp only [serializeField, upperChars_append, hname, upperChars_repr, hsymbols]
    simp
  have hgt : '>' ∉ '<' :: name.toList := fun hmem ↦
    (List.mem_cons.1 hmem).elim (by decide) h.notMem_gt
  have hlength : '<' ∉ ':' :: ((toString (encodeUtf8 value.toList).length).toList ++ ['>']) := by
    intro hmem
    obtain hmem | hmem := List.mem_cons.1 hmem
    · exact absurd hmem (by decide)
    obtain hmem | hmem := List.mem_append.1 hmem
    · exact notMem_repr_of_not_isDigit (by decide) _ hmem
    · exact absurd hmem (by decide)
  rw [htext, marker_append_colon hgt, ← List.cons_append, marker_append_of_not_mem hlength,
    marker_append_lt]

/-- **The marker in a serialized record** is in one of its values. -/
theorem marker_serializeRecord {record : Record} (h : ∀ name ∈ record, TagName name)
    (rest : List Char) : headerMarker <:+: upperChars (serializeRecord record) ++ rest ↔
      (∃ field ∈ record.toList, headerMarker <:+: upperChars field.2.toList) ∨
        headerMarker <:+: rest := by
  have hend : upperChars "<EOR>\n\n".toList = "<EOR>\n\n".toList := upperChars_eq_self (by simp)
  have hcontrol : headerMarker <:+: "<EOR>\n\n".toList ++ rest ↔ headerMarker <:+: rest := by
    have htag : ¬ headerMarker <+: "<EOR>\n\n".toList ++ rest := by
      intro hprefix
      have hchars : headerMarker.take 4 <+: "<EOR".toList ++ (">\n\n".toList ++ rest) :=
        (List.take_prefix ..).trans hprefix
      have hfour := List.prefix_of_prefix_length_le hchars (List.prefix_append ..) (by decide)
      exact absurd hfour (by decide)
    have hcons : "<EOR>\n\n".toList ++ rest = '<' :: ("EOR>\n\n".toList ++ rest) := rfl
    rw [hcons] at htag ⊢
    rw [List.infix_cons_iff, or_iff_right htag]
    exact marker_append_of_not_mem (by decide) rest
  have hfields : ∀ fields : List (String × String), (∀ field ∈ fields, TagName field.1) →
      (headerMarker <:+: upperChars (fields.flatMap fun field ↦ serializeField field.1 field.2) ++
          ("<EOR>\n\n".toList ++ rest) ↔
        (∃ field ∈ fields, headerMarker <:+: upperChars field.2.toList) ∨
          headerMarker <:+: rest) := by
    intro fields
    induction fields with
    | nil =>
      intro _
      rw [List.flatMap_nil, upperChars_nil, List.nil_append, hcontrol]
      simp
    | cons field fields ih =>
      intro hnames
      have hrest : ∃ cs, upperChars (fields.flatMap fun field ↦ serializeField field.1 field.2) ++
          ("<EOR>\n\n".toList ++ rest) = '<' :: cs := by
        cases fields with
        | nil => exact ⟨_, rfl⟩
        | cons field fields =>
          rw [List.flatMap_cons, upperChars_append, serializeField]
          simp only [upperChars_append, upperChars_cons_ascii (by decide : '<'.toNat < 128),
            upperChars_nil, List.append_assoc]
          exact ⟨_, rfl⟩
      rw [List.flatMap_cons, upperChars_append, List.append_assoc,
        marker_serializeField (hnames field (List.mem_cons_self ..)) field.2 hrest,
        ih fun f hf ↦ hnames f (List.mem_cons_of_mem _ hf)]
      simp only [List.mem_cons, exists_eq_or_imp, or_assoc]
  rw [serializeRecord, upperChars_append, hend, List.append_assoc]
  exact hfields record.toList fun field hfield ↦ h field.1 (mem_of_mem_record hfield)

/-- **A search for the marker** finds it in a serialized file if it is in one of the values. -/
theorem marker_serializeRecords {records : List Record}
    (h : ∀ record ∈ records, ∀ name ∈ record, TagName name) :
    headerMarker <:+: upperChars (records.flatMap serializeRecord) ↔
      ∃ record ∈ records, ∃ field ∈ record.toList, headerMarker <:+: upperChars field.2.toList := by
  induction records with
  | nil =>
    have hnil : ¬ headerMarker <:+: [] := by decide
    simpa using hnil
  | cons record records ih =>
    rw [List.flatMap_cons, upperChars_append,
      marker_serializeRecord (h record (List.mem_cons_self ..)),
      ih fun r hr ↦ h r (List.mem_cons_of_mem _ hr)]
    simp only [List.mem_cons, exists_eq_or_imp]

/-! ## A file without a header -/

/-- In what is taken for a header, fields are passed over. -/
theorem parse_serializeFields_inHeader {fields : List (String × String)}
    (h : ∀ field ∈ fields, SafeName field.1 ∧ FitsBytes field.2) {s : ParseState}
    (hs : s.inHeader = true) (rest : List Char) :
    parse s ((fields.flatMap fun field ↦ serializeField field.1 field.2) ++ rest) =
      parse s rest := by
  induction fields with
  | nil => rfl
  | cons field fields ih =>
    have hstore : s.store (upper field.1) field.2 = s := by rw [ParseState.store, if_pos hs]
    obtain ⟨hname, hsize⟩ := h field (List.mem_cons_self ..)
    rw [List.flatMap_cons, List.append_assoc, parse_serializeField hname hsize, hstore,
      ih fun f hf ↦ h f (List.mem_cons_of_mem _ hf)]

/-- So are records. -/
theorem parse_serializeRecords_inHeader {records : List Record}
    (h : ∀ record ∈ records, ∀ name ∈ record, SafeName name)
    (hsize : ∀ record ∈ records, record.FitsBytes) {s : ParseState}
    (hs : s.inHeader = true) : (parse s (records.flatMap serializeRecord)).records = s.records := by
  have heor : upperChars "EOR".toList = "EOR".toList := upperChars_eq_self (by simp)
  induction records generalizing s with
  | nil => rfl
  | cons record records ih =>
    have hend : ∀ rest, parse s ("<EOR>\n\n".toList ++ rest) =
        parse { s with recordIndex := s.recordIndex + 1 } rest := by
      intro rest
      have htext : "<EOR>\n\n".toList ++ rest =
          ['<'] ++ "EOR".toList ++ ['>'] ++ ("\n\n".toList ++ rest) := rfl
      rw [htext, parse_tag (by decide), handleTag, heor, if_neg (by decide), if_pos rfl, hs,
        parse_skip (by decide)]
      rfl
    rw [List.flatMap_cons, serializeRecord, List.append_assoc,
      parse_serializeFields_inHeader (safe_of_mem_record (h record (List.mem_cons_self ..))
        (hsize record (List.mem_cons_self ..))) hs, hend]
    exact ih (fun r hr ↦ h r (List.mem_cons_of_mem _ hr))
      (fun r hr ↦ hsize r (List.mem_cons_of_mem _ hr)) hs

/-- **A file without a header is read back** exactly if none of its values, in upper case, holds the
end of a header. -/
theorem parseAdi_serializeAdi_iff {records : List Record} (hne : ∀ record ∈ records, record ≠ ∅)
    (hnames : ∀ record ∈ records, ∀ name ∈ record, TagName name)
    (hsize : ∀ record ∈ records, record.FitsBytes) :
    parseAdi (serializeAdi records none) = (records, []) ↔
      ∀ record ∈ records, ∀ name value : String, record[name]? = some value →
        ¬ headerMarker <:+: upperChars value.toList := by
  have hsafe : ∀ record ∈ records, ∀ name ∈ record, SafeName name := fun record hrecord name hname ↦
    (hnames record hrecord name hname).safe
  have hsame : records.map readBack = records :=
    (List.map_congr_left fun record hrecord ↦ readBack_eq_self (hnames record hrecord)).trans
      (List.map_id _)
  have hvalues : (∃ record ∈ records, ∃ field ∈ record.toList,
      headerMarker <:+: upperChars field.2.toList) ↔
      ∃ record ∈ records, ∃ name value : String, record[name]? = some value ∧
        headerMarker <:+: upperChars value.toList := by
    refine exists_congr fun record ↦ and_congr_right fun _ ↦ ⟨?_, ?_⟩
    · rintro ⟨⟨name, value⟩, hfield, hmarker⟩
      exact ⟨name, value, Std.ExtTreeMap.mem_toList_iff_getElem?_eq_some.1 hfield, hmarker⟩
    · rintro ⟨name, value, hvalue, hmarker⟩
      exact ⟨(name, value), Std.ExtTreeMap.mem_toList_iff_getElem?_eq_some.2 hvalue, hmarker⟩
  have htext : serializeAdi records none = records.flatMap serializeRecord := List.nil_append _
  rw [parseAdi, htext]
  by_cases hmarker : headerMarker <:+: upperChars (records.flatMap serializeRecord)
  · have hin : decide ("<EOH>".toList <:+: upperChars (records.flatMap serializeRecord)) = true :=
      decide_eq_true hmarker
    obtain ⟨record, hrecord, name, value, hvalue, hfound⟩ :=
      hvalues.1 ((marker_serializeRecords hnames).1 hmarker)
    refine iff_of_false (fun heq ↦ ?_) fun h ↦ h record hrecord name value hvalue hfound
    have hrecords := congrArg Prod.fst heq
    dsimp only at hrecords
    rw [hin, parse_serializeRecords_inHeader hsafe hsize rfl] at hrecords
    rw [← hrecords] at hrecord
    exact absurd hrecord List.not_mem_nil
  · have hin : decide ("<EOH>".toList <:+: upperChars (records.flatMap serializeRecord)) = false :=
      decide_eq_false hmarker
    refine iff_of_true ?_ fun record hrecord name value hvalue hfound ↦
      hmarker ((marker_serializeRecords hnames).2
        (hvalues.2 ⟨record, hrecord, name, value, hvalue, hfound⟩))
    rw [hin, parse_serializeRecords hne hsafe hsize rfl rfl, hsame]
    rfl

/-! ## Tags of a header -/

/-- How many characters behind a tag are its value. -/
def valueLength (tag rest : List Char) : Nat :=
  match splitChars ':' tag with
  | _ :: length :: _ =>
    match intOfText length with
    | some byteLength => (decodeUtf8 (takeBytes byteLength (encodeUtf8 rest))).length
    | none => 0
  | _ => 0

/-- A tag that is not the end of the header leaves the parser in the header, behind the value. -/
theorem handleTag_inHeader {s : ParseState} (hs : s.inHeader = true) {tag : List Char}
    (htag : upperChars tag ≠ "EOH".toList) (rest : List Char) : ∃ index,
      handleTag s tag rest = ({ s with recordIndex := index }, rest.drop (valueLength tag rest)) := by
  rw [handleTag, if_neg htag]
  by_cases heor : upperChars tag = "EOR".toList
  · have hcolon : ':' ∉ tag := fun hmem ↦ upperChars_ne_of_colon hmem (by decide) heor
    rw [if_pos heor, valueLength, splitChars_of_not_mem hcolon]
    refine ⟨s.recordIndex + 1, ?_⟩
    simp only [hs, Bool.not_true, Bool.false_and, Bool.false_eq_true, if_false, List.drop_zero]
  · refine ⟨s.recordIndex, ?_⟩
    rw [if_neg heor, valueLength]
    cases splitChars ':' tag with
    | nil => rfl
    | cons name parts =>
      cases parts with
      | nil => rfl
      | cons length parts =>
        dsimp only
        rw [parseData]
        cases intOfText length with
        | none =>
          dsimp only
          rw [if_pos hs, List.drop_zero]
        | some byteLength =>
          dsimp only
          rw [if_pos hs]

/-- A text with a tag in it. -/
theorem parse_tag_of_append {pre tag : List Char} (hpre : '<' ∉ pre) (htag : '>' ∉ tag)
    (s : ParseState) (rest : List Char) : parse s (pre ++ '<' :: (tag ++ '>' :: rest)) =
      parse (handleTag s tag rest).1 (handleTag s tag rest).2 := by
  have htext : '<' :: (tag ++ '>' :: rest) = ['<'] ++ tag ++ ['>'] ++ rest := by simp
  rw [parse_skip hpre, htext, parse_tag htag]

omit [UnicodeData] in
/-- A text is without a tag, or comes apart at its first one. -/
theorem tag_cases (text : List Char) : ('<' ∉ text ∨ ∃ pre rest, text = pre ++ '<' :: rest ∧
    '<' ∉ pre ∧ '>' ∉ rest) ∨ ∃ pre tag rest, text = pre ++ '<' :: (tag ++ '>' :: rest) ∧
      '<' ∉ pre ∧ '>' ∉ tag := by
  by_cases hlt : '<' ∈ text
  · obtain ⟨pre, behind, rfl, hpre⟩ := List.eq_append_cons_of_mem hlt
    by_cases hgt : '>' ∈ behind
    · obtain ⟨tag, rest, rfl, htag⟩ := List.eq_append_cons_of_mem hgt
      exact .inr ⟨pre, tag, rest, rfl, hpre, htag⟩
    · exact .inl (.inr ⟨pre, behind, rfl, hpre, hgt⟩)
  · exact .inl (.inl hlt)

/-- A text whose first tag is not closed. -/
theorem parse_unclosed {pre rest : List Char} (hpre : '<' ∉ pre) (hrest : '>' ∉ rest)
    (s : ParseState) : parse s (pre ++ '<' :: rest) = s := by
  have hdrop : rest.dropWhile (· != '>') = [] := List.dropWhile_eq_nil_iff.2 fun c hc ↦ by
    rw [bne_iff_ne]
    exact fun heq ↦ hrest (heq ▸ hc)
  rw [parse_skip hpre, parse_eq, parseTag, List.dropWhile_cons, bne_self_eq_false,
    if_neg (by decide)]
  dsimp only
  rw [hdrop]

/-- A text without a tag. -/
theorem parse_of_not_mem {text : List Char} (h : '<' ∉ text) (s : ParseState) :
    parse s text = s := by
  have hskip := parse_skip h s []
  rwa [List.append_nil, parse_nil] at hskip

/-- A tag whose upper case is `EOH` is the marker. -/
theorem marker_of_tag {pre tag rest : List Char} (h : upperChars tag = "EOH".toList) :
    headerMarker <:+: upperChars (pre ++ '<' :: (tag ++ '>' :: rest)) := by
  have hsymbols : upperChars ['<'] = ['<'] ∧ upperChars ['>'] = ['>'] :=
    ⟨upperChars_eq_self (by simp), upperChars_eq_self (by simp)⟩
  have htext : pre ++ '<' :: (tag ++ '>' :: rest) = pre ++ ['<'] ++ tag ++ ['>'] ++ rest := by simp
  rw [htext, upperChars_append, upperChars_append, upperChars_append, upperChars_append, h,
    hsymbols.1, hsymbols.2]
  exact ⟨upperChars pre, upperChars rest, by simp [headerMarker]⟩

theorem marker_of_suffix {text text' : List Char} (hsuffix : text' <:+ text)
    (h : headerMarker <:+: upperChars text') : headerMarker <:+: upperChars text := by
  obtain ⟨pre, rfl⟩ := hsuffix
  rw [upperChars_append]
  exact h.trans (List.suffix_append ..).isInfix

/-- **Without a marker the header does not end**, and nothing is read. -/
theorem parse_of_not_marker {text : List Char} (h : ¬ headerMarker <:+: upperChars text)
    {s : ParseState} (hs : s.inHeader = true) :
    ∃ index, parse s text = { s with recordIndex := index } := by
  have hall : ∀ n text s, text.length ≤ n → ¬ headerMarker <:+: upperChars text →
      s.inHeader = true → ∃ index, parse s text = { s with recordIndex := index } := by
    intro n
    induction n with
    | zero =>
      intro text s hlength _ _
      obtain rfl := List.length_eq_zero_iff.1 (Nat.le_zero.1 hlength)
      exact ⟨s.recordIndex, parse_nil s⟩
    | succ n ih =>
      intro text s hlength h hs
      obtain (hnone | ⟨pre, rest, rfl, hpre, hrest⟩) | ⟨pre, tag, rest, rfl, hpre, htag⟩ :=
        tag_cases text
      · exact ⟨s.recordIndex, parse_of_not_mem hnone s⟩
      · exact ⟨s.recordIndex, parse_unclosed hpre hrest s⟩
      · obtain ⟨index, hhandle⟩ := handleTag_inHeader hs (fun heoh ↦ h (marker_of_tag heoh)) rest
        rw [parse_tag_of_append hpre htag, hhandle]
        have hsuffix : rest.drop (valueLength tag rest) <:+
            pre ++ '<' :: (tag ++ '>' :: rest) := by
          refine (List.drop_suffix _ _).trans ⟨pre ++ '<' :: (tag ++ ['>']), by simp⟩
        have hlt : (rest.drop (valueLength tag rest)).length ≤ n := by
          simp only [List.length_append, List.length_cons, List.length_drop] at hlength ⊢
          omega
        obtain ⟨index', hrest⟩ := ih _ { s with recordIndex := index } hlt
          (fun hmarker ↦ h (marker_of_suffix hsuffix hmarker)) hs
        exact ⟨index', hrest⟩
  exact hall _ text s le_rfl h hs

/-! ## Headers that end -/

/-- Every tag of a header is closed in the header, and its value ends there. -/
inductive HeaderEnds (body : List Char) : List Char → Prop
  | text {header : List Char} (h : '<' ∉ header) : HeaderEnds body header
  | tag {pre tag rest : List Char} (hpre : '<' ∉ pre) (htag : '>' ∉ tag)
      (hvalue : valueLength tag (rest ++ (headerMarker ++ body)) ≤ rest.length)
      (h : HeaderEnds body (rest.drop (valueLength tag (rest ++ (headerMarker ++ body))))) :
      HeaderEnds body (pre ++ '<' :: (tag ++ '>' :: rest))

/-- **Such a header is skipped.** -/
theorem parse_of_headerEnds {body header : List Char} (hends : HeaderEnds body header)
    (h : ¬ headerMarker <:+: upperChars header) {s : ParseState} (hs : s.inHeader = true) :
    ∃ index, parse s (header ++ (headerMarker ++ body)) =
      parse { s with inHeader := false, recordIndex := index } body := by
  induction hends generalizing s with
  | @text header hnone =>
    have heoh : upperChars "EOH".toList = "EOH".toList := upperChars_eq_self (by simp)
    have htext : headerMarker ++ body = ['<'] ++ "EOH".toList ++ ['>'] ++ body := rfl
    refine ⟨s.recordIndex, ?_⟩
    rw [parse_skip hnone, htext, parse_tag (by decide), handleTag, if_pos heoh]
  | @tag pre tag rest hpre htag hvalue _ ih =>
    have htext : pre ++ '<' :: (tag ++ '>' :: rest) ++ (headerMarker ++ body) =
        pre ++ '<' :: (tag ++ '>' :: (rest ++ (headerMarker ++ body))) := by simp
    obtain ⟨index, hhandle⟩ := handleTag_inHeader hs (fun heoh ↦ h (marker_of_tag heoh))
      (rest ++ (headerMarker ++ body))
    have hsuffix : rest.drop (valueLength tag (rest ++ (headerMarker ++ body))) <:+
        pre ++ '<' :: (tag ++ '>' :: rest) :=
      (List.drop_suffix _ _).trans ⟨pre ++ '<' :: (tag ++ ['>']), by simp⟩
    obtain ⟨index', hrest⟩ := @ih (fun hmarker ↦ h (marker_of_suffix hsuffix hmarker))
      { s with recordIndex := index } hs
    refine ⟨index', ?_⟩
    rw [htext, parse_tag_of_append hpre htag, hhandle, List.drop_append_of_le_length hvalue]
    exact hrest

/-- **Any other header takes the marker with it**, and nothing is read. -/
theorem parse_of_not_headerEnds {body header : List Char} (hends : ¬ HeaderEnds body header)
    (h : ¬ headerMarker <:+: upperChars header) (hbody : ¬ headerMarker <:+: upperChars body)
    {s : ParseState} (hs : s.inHeader = true) :
    ∃ index, parse s (header ++ (headerMarker ++ body)) = { s with recordIndex := index } := by
  have hall : ∀ n header s, header.length ≤ n → ¬ HeaderEnds body header →
      ¬ headerMarker <:+: upperChars header → s.inHeader = true →
      ∃ index, parse s (header ++ (headerMarker ++ body)) = { s with recordIndex := index } := by
    intro n
    induction n with
    | zero =>
      intro header s hlength hends _ _
      obtain rfl := List.length_eq_zero_iff.1 (Nat.le_zero.1 hlength)
      exact absurd (.text List.not_mem_nil) hends
    | succ n ih =>
      intro header s hlength hends h hs
      obtain (hnone | ⟨pre, behind, rfl, hpre, hbehind⟩) | ⟨pre, tag, rest, rfl, hpre, htag⟩ :=
        tag_cases header
      · exact absurd (.text hnone) hends
      · -- The first tag is closed by the marker.
        have htext : pre ++ '<' :: behind ++ (headerMarker ++ body) =
            pre ++ '<' :: (behind ++ "<EOH".toList ++ '>' :: body) := by simp [headerMarker]
        have htag : '>' ∉ behind ++ "<EOH".toList := fun hmem ↦
          (List.mem_append.1 hmem).elim hbehind (by decide)
        have heoh : upperChars (behind ++ "<EOH".toList) ≠ "EOH".toList := fun heq ↦ by
          have hmem := @mem_upperChars_of_mem _ '<' (by decide) (by decide)
            (behind ++ "<EOH".toList) (List.mem_append_right _ (by decide))
          rw [heq] at hmem
          exact absurd hmem (by decide)
        obtain ⟨index, hhandle⟩ := handleTag_inHeader hs heoh body
        rw [htext, parse_tag_of_append hpre htag, hhandle]
        exact @parse_of_not_marker _ _ (fun hmarker ↦
          hbody (marker_of_suffix (List.drop_suffix _ _) hmarker)) { s with recordIndex := index } hs
      · have htext : pre ++ '<' :: (tag ++ '>' :: rest) ++ (headerMarker ++ body) =
            pre ++ '<' :: (tag ++ '>' :: (rest ++ (headerMarker ++ body))) := by simp
        obtain ⟨index, hhandle⟩ := handleTag_inHeader hs (fun heoh ↦ h (marker_of_tag heoh))
          (rest ++ (headerMarker ++ body))
        rw [htext, parse_tag_of_append hpre htag, hhandle]
        by_cases hvalue : valueLength tag (rest ++ (headerMarker ++ body)) ≤ rest.length
        · have hsuffix : rest.drop (valueLength tag (rest ++ (headerMarker ++ body))) <:+
              pre ++ '<' :: (tag ++ '>' :: rest) :=
            (List.drop_suffix _ _).trans ⟨pre ++ '<' :: (tag ++ ['>']), by simp⟩
          rw [List.drop_append_of_le_length hvalue]
          refine ih _ { s with recordIndex := index } ?_ (fun hrest ↦ hends ?_)
            (fun hmarker ↦ h (marker_of_suffix hsuffix hmarker)) hs
          · simp only [List.length_append, List.length_cons, List.length_drop] at hlength ⊢
            omega
          · exact .tag hpre htag hvalue hrest
        · -- The value takes at least the first character of the marker with it.
          obtain ⟨k, hk⟩ := Nat.exists_eq_add_of_lt (Nat.not_le.1 hvalue)
          have hdrop : (rest ++ (headerMarker ++ body)).drop
              (valueLength tag (rest ++ (headerMarker ++ body))) =
              ("EOH>".toList ++ body).drop k := by
            rw [hk, Nat.add_assoc, ← List.drop_drop, List.drop_left]
            rfl
          have hnone : ¬ headerMarker <:+: upperChars ("EOH>".toList ++ body) := by
            rw [upperChars_append, upperChars_eq_self (by simp),
              marker_append_of_not_mem (by decide)]
            exact hbody
          rw [hdrop]
          exact @parse_of_not_marker _ _ (fun hmarker ↦
            hnone (marker_of_suffix (List.drop_suffix _ _) hmarker)) { s with recordIndex := index } hs
  exact hall _ header s le_rfl hends h hs

/-- **Everything before the end of the header is ignored** if and only if every tag of the header is
closed in it and its value ends there, or there is nothing to be read behind it anyway. -/
theorem records_behind_header_iff {header body : List Char}
    (hheader : ¬ headerMarker <:+: upperChars header)
    (hbody : ¬ headerMarker <:+: upperChars body) :
    (parseAdi (header ++ (headerMarker ++ body))).1 = (parseAdi body).1 ↔
      HeaderEnds body header ∨ completes false (events body) = false := by
  have hmarker : upperChars headerMarker = headerMarker := upperChars_eq_self (by simp [headerMarker])
  have hin : decide ("<EOH>".toList <:+: upperChars (header ++ (headerMarker ++ body))) = true := by
    rw [upperChars_append, upperChars_append, hmarker]
    exact decide_eq_true ⟨upperChars header, upperChars body, by simp [headerMarker]⟩
  have hout : decide ("<EOH>".toList <:+: upperChars body) = false := decide_eq_false hbody
  have hnone : (parseAdi body).1 = [] ↔ completes false (events body) = false := by
    rw [parseAdi, hout, parse_eq_foldl]
    exact records_foldl_apply_eq_iff rfl (events body)
  have hindex : ∀ index, (parse { inHeader := false, recordIndex := index } body).records =
      (parse { inHeader := false } body).records := fun index ↦ by
    rw [parse_eq_foldl, parse_eq_foldl]
    exact @records_foldl_apply_congr { inHeader := false, recordIndex := index }
      { inHeader := false } rfl rfl rfl _
  rw [← hnone, parseAdi, hin]
  by_cases hends : HeaderEnds body header
  · obtain ⟨index, hparse⟩ := @parse_of_headerEnds _ _ _ hends hheader { inHeader := true } rfl
    refine iff_of_true ?_ (.inl hends)
    rw [hparse, parseAdi, hout]
    exact hindex index
  · obtain ⟨index, hparse⟩ := @parse_of_not_headerEnds _ _ _ hends hheader hbody
      { inHeader := true } rfl
    rw [hparse]
    exact ⟨fun heq ↦ .inr heq.symm, fun h ↦ (h.resolve_left hends).symm⟩

end

section

attribute [local instance] UnicodeData.ascii

/-- A contact with a note about a header. -/
def Sample.note : Record := ((∅ : Record).insert "CALL" "W1AW").insert "NOTES" "the <eoh> tag"

theorem names_note : ∀ name ∈ Sample.note, TagName name := by
  intro name hname
  rw [Sample.note, Std.ExtTreeMap.mem_insert, Std.ExtTreeMap.mem_insert, Std.compare_eq_iff_eq,
    Std.compare_eq_iff_eq] at hname
  obtain rfl | rfl | hname := hname
  · exact ⟨by rw [upper, upperChars_eq_self (by simp), String.ofList_toList], by decide, by decide⟩
  · exact ⟨by rw [upper, upperChars_eq_self (by simp), String.ofList_toList], by decide, by decide⟩
  · simp at hname

/-- The file is taken for a header, and nothing is read. -/
theorem parseAdi_serializeAdi_note_ne : Sample.note ≠ ∅ ∧ (∀ name ∈ Sample.note, TagName name) ∧
    Sample.note.FitsBytes ∧ parseAdi (serializeAdi [Sample.note] none) ≠ ([Sample.note], []) := by
  refine ⟨by simp [Sample.note], names_note, Record.fitsBytes_insert (Record.fitsBytes_insert
    Record.fitsBytes_empty (by decide)) (by decide), fun heq ↦ ?_⟩
  have hnone : (parseAdi (serializeAdi [Sample.note] none)).1.length = 0 := by decide +kernel
  rw [heq] at hnone
  cases hnone

/-- A contact whose values look like tags, but not like the end of a header. -/
theorem parseAdi_serializeAdi_of_call :
    parseAdi (serializeAdi [(∅ : Record).insert "CALL" "<EOR>"] none) =
      ([(∅ : Record).insert "CALL" "<EOR>"], []) := by
  refine (parseAdi_serializeAdi_iff (by simp) (fun record hrecord name hname ↦ ?_)
    fun record hrecord ↦ ?_).2 fun record hrecord name value hvalue ↦ ?_
  · rw [List.mem_singleton.1 hrecord, Std.ExtTreeMap.mem_insert, Std.compare_eq_iff_eq] at hname
    obtain rfl | hname := hname
    · exact ⟨by rw [upper, upperChars_eq_self (by simp), String.ofList_toList], by decide,
        by decide⟩
    · simp at hname
  · rw [List.mem_singleton.1 hrecord]
    exact Record.fitsBytes_insert Record.fitsBytes_empty (by decide)
  · rw [List.mem_singleton.1 hrecord, Std.ExtTreeMap.getElem?_insert] at hvalue
    split at hvalue
    · cases hvalue
      decide +kernel
    · simp at hvalue

/-- A header with a `<` in its text. -/
def Sample.strayHeader : List Char := "power < 100 W\n".toList

/-- A contact behind it. -/
def Sample.body : List Char := "\n<CALL:4>W1AW<EOR>\n".toList

/-- The tag that begins with the `<` ends with the marker, and the contact is taken for a part of
the header. -/
theorem records_behind_strayHeader_ne : ¬ headerMarker <:+: upperChars Sample.strayHeader ∧
    ¬ headerMarker <:+: upperChars Sample.body ∧
    (parseAdi (Sample.strayHeader ++ (headerMarker ++ Sample.body))).1 ≠
      (parseAdi Sample.body).1 := by
  refine ⟨by decide +kernel, by decide +kernel, fun heq ↦ ?_⟩
  have hnone : (parseAdi (Sample.strayHeader ++ (headerMarker ++ Sample.body))).1.length = 0 := by
    decide +kernel
  have hone : (parseAdi Sample.body).1.length = 1 := by decide +kernel
  rw [heq, hone] at hnone
  cases hnone

/-- A header with a tag is skipped. -/
theorem records_behind_tagHeader :
    (parseAdi ("<ADIF_VER:5>3.1.4\n".toList ++ (headerMarker ++ Sample.body))).1 =
      (parseAdi Sample.body).1 := by
  have hends : HeaderEnds Sample.body ([] ++ '<' :: ("ADIF_VER:5".toList ++
      '>' :: "3.1.4\n".toList)) := by
    have hvalue : valueLength "ADIF_VER:5".toList
        ("3.1.4\n".toList ++ (headerMarker ++ Sample.body)) = 5 := by decide +kernel
    refine .tag (by decide) (by decide) (by rw [hvalue]; decide) ?_
    rw [hvalue]
    exact .text (by decide)
  exact (records_behind_header_iff (by decide +kernel) (by decide +kernel)).2 (.inl hends)

end

end Ollog

import Ollog.Adif.Parser

/-!
# The ADIF serializer, and the round trip

`serialize_adi` writes a field as `<NAME:LENGTH>VALUE`, where the length counts the UTF-8 bytes of
the value, and a record as its fields in order followed by `<EOR>`.  An export is a fixed header
followed by one record after another.

The values are arbitrary texts: they may look like tags, or like the end of the header.  That this
does no harm is the cursor invariant of `parse_serializeField`: a parser that stands before a
serialized field moves to exactly the end of its value, so it never looks for a tag inside a value.
-/

set_option autoImplicit false

namespace Ollog

/-! ## Serializing -/

/-- One field of a record. -/
def serializeField (name value : String) : List Char :=
  ['<'] ++ name.toList ++ [':'] ++ (toString (encodeUtf8 value.toList).length).toList ++ ['>'] ++
    value.toList

/-- One record; the entries of the map come in the order of their names. -/
def serializeRecord (record : Record) : List Char :=
  (record.toList.flatMap fun field ↦ serializeField field.1 field.2) ++ "<EOR>\n\n".toList

/-- `serialize_adi`. -/
def serializeAdi (records : List Record) (header : Option String) : List Char :=
  (match header with
    | none => []
    | some text => text.toList ++ "\n<EOH>\n\n".toList) ++ records.flatMap serializeRecord

/-- `_ADIF_HEADER`. -/
def adifHeader : List Char := "<ADIF_VER:5>3.1.4\n<PROGRAMID:5>ollog\n<EOH>\n\n".toList

/-- The stream `export_adif` emits for the records of a log. -/
def exportStream (records : List Record) : List Char :=
  adifHeader ++ records.flatMap fun record ↦ serializeAdi [record] none

/-! ## Sizes -/

/-- `sys.maxsize`: no `str` and no `bytes` object is longer. -/
def maxSize : Nat := 2 ^ 63 - 1

/-- The UTF-8 encoding of the text, whose length is written into the tag, is a `bytes` object. -/
def FitsBytes (value : String) : Prop := (encodeUtf8 value.toList).length ≤ maxSize

instance (value : String) : Decidable (FitsBytes value) := inferInstanceAs (Decidable (_ ≤ _))

/-- `serialize_adi` can encode all values of the record. -/
def Record.FitsBytes (record : Record) : Prop :=
  ∀ (name value : String), record[name]? = some value → Ollog.FitsBytes value

theorem Record.fitsBytes_insert {record : Record} {name value : String} (h : record.FitsBytes)
    (hvalue : Ollog.FitsBytes value) : Record.FitsBytes (record.insert name value) := by
  intro k v hv
  rw [Std.ExtTreeMap.getElem?_insert] at hv
  split at hv
  · exact Option.some.inj hv ▸ hvalue
  · exact h k v hv

theorem Record.fitsBytes_empty : Record.FitsBytes ∅ := fun _ _ h ↦
  nomatch Std.ExtTreeMap.getElem?_empty.symm.trans h

/-- The length of a `bytes` object has few digits. -/
theorem FitsBytes.lt {value : String} (h : FitsBytes value) :
    (encodeUtf8 value.toList).length < 10 ^ maxStrDigits := by
  have hmax : maxSize < 10 ^ 19 := by decide
  have hpow : 10 ^ 19 ≤ 10 ^ maxStrDigits := Nat.pow_le_pow_right (by decide) (by decide)
  exact Nat.lt_of_le_of_lt h (Nat.lt_of_lt_of_le hmax hpow)

/-! ## Parsing what was serialized -/

theorem notMem_repr_of_not_isDigit {c : Char} (hc : c.isDigit = false) (n : Nat) :
    c ∉ (toString n).toList := fun hmem ↦ by
  rw [Nat.toString_eq_repr, Nat.toList_repr] at hmem
  rw [Nat.isDigit_of_mem_toDigits (by decide) (by decide) hmem] at hc
  cases hc

section RoundTrip

variable [UnicodeData]

/-- A field name that a tag can carry. -/
structure TagName (name : String) : Prop where
  upper_eq : upper name = name
  notMem_gt : '>' ∉ name.toList
  notMem_colon : ':' ∉ name.toList

omit [UnicodeData] in
/-- A field name that a tag can carry, if only in upper case. -/
structure SafeName (name : String) : Prop where
  notMem_gt : '>' ∉ name.toList
  notMem_colon : ':' ∉ name.toList

theorem TagName.safe {name : String} (h : TagName name) : SafeName name :=
  ⟨h.notMem_gt, h.notMem_colon⟩

/-- A record as the parser gives it back: its names are upper-cased, and of two fields that get the
same name the later one stays. -/
def readBack (record : Record) : Record :=
  (∅ : Record).insertMany (record.toList.map fun field ↦ (upper field.1, field.2))

/-- The state after a data tag. -/
def ParseState.store (s : ParseState) (name value : String) : ParseState :=
  if s.inHeader then s else { s with currentRecord := s.currentRecord.insert name value }

/-- A tag with a colon is no control tag. -/
theorem upperChars_ne_of_colon {tag control : List Char} (h : ':' ∈ tag) (hc : ':' ∉ control) :
    upperChars tag ≠ control := fun heq ↦
  hc (heq ▸ mem_upperChars_of_mem (by decide) (by decide) h)

/-- Text without a tag is skipped. -/
theorem parse_skip {pre : List Char} (h : '<' ∉ pre) (s : ParseState) (rest : List Char) :
    parse s (pre ++ rest) = parse s rest := by
  have hdrop : (pre ++ rest).dropWhile (· != '<') = rest.dropWhile (· != '<') :=
    List.dropWhile_append_of_pos fun c hc ↦ by
      rw [bne_iff_ne]
      exact fun heq ↦ h (heq ▸ hc)
  rw [parse_eq, parse_eq s rest, parseTag, parseTag, hdrop]

/-- A tag, and what follows it. -/
theorem parse_tag {tag : List Char} (h : '>' ∉ tag) (s : ParseState) (rest : List Char) :
    parse s (['<'] ++ tag ++ ['>'] ++ rest) =
      parse (handleTag s tag rest).1 (handleTag s tag rest).2 := by
  have htext : ['<'] ++ tag ++ ['>'] ++ rest = '<' :: (tag ++ '>' :: rest) := by simp
  rw [htext, parse_eq, parseTag, List.dropWhile_cons, bne_self_eq_false, if_neg (by decide)]
  dsimp only
  rw [dropWhile_append_cons h, takeWhile_append_cons h]

/-- **The cursor invariant**: a parser that stands before a serialized field stores the field and
moves behind its value, whatever the value looks like. -/
theorem parse_serializeField {name value : String} (h : SafeName name) (hsize : FitsBytes value)
    (s : ParseState) (rest : List Char) :
    parse s (serializeField name value ++ rest) = parse (s.store (upper name) value) rest := by
  let length := (toString (encodeUtf8 value.toList).length).toList
  let tag := name.toList ++ ':' :: length
  have hgt : '>' ∉ tag := by
    simp only [tag, length, List.mem_append, List.mem_cons, not_or]
    exact ⟨h.notMem_gt, by decide, notMem_repr_of_not_isDigit (by decide) _⟩
  have hcolon : ':' ∈ tag := by simp [tag]
  have hsplit : splitChars ':' tag = [name.toList, length] := by
    rw [splitChars_append_cons h.notMem_colon,
      splitChars_of_not_mem (notMem_repr_of_not_isDigit (by decide) _)]
  have hlength : intOfText length = some ((encodeUtf8 value.toList).length : Int) :=
    intOfText_repr hsize.lt
  have hvalue : decodeUtf8 (takeBytes (encodeUtf8 value.toList).length
      (encodeUtf8 (value.toList ++ rest))) = value.toList := by
    rw [takeBytes, if_pos (Int.natCast_nonneg _), Int.toNat_natCast, encodeUtf8_append,
      List.take_left, decodeUtf8_encodeUtf8]
  have htag : handleTag s tag (value.toList ++ rest) = (s.store (upper name) value, rest) := by
    rw [handleTag, if_neg (upperChars_ne_of_colon hcolon (by decide)),
      if_neg (upperChars_ne_of_colon hcolon (by decide)), hsplit]
    dsimp only
    rw [parseData, hlength]
    dsimp only
    rw [hvalue, List.drop_left, String.ofList_toList, ParseState.store]
    rfl
  have htext : serializeField name value ++ rest =
      ['<'] ++ tag ++ ['>'] ++ (value.toList ++ rest) := by
    simp [serializeField, tag, length]
  rw [htext, parse_tag hgt, htag]

/-- A run of serialized fields. -/
theorem parse_serializeFields {fields : List (String × String)}
    (h : ∀ field ∈ fields, SafeName field.1 ∧ FitsBytes field.2) {s : ParseState}
    (hs : s.inHeader = false) (rest : List Char) :
    parse s ((fields.flatMap fun field ↦ serializeField field.1 field.2) ++ rest) =
      parse { s with
        currentRecord := s.currentRecord.insertMany
          (fields.map fun field ↦ (upper field.1, field.2)) } rest := by
  induction fields generalizing s with
  | nil => rw [List.flatMap_nil, List.map_nil, Std.ExtTreeMap.insertMany_nil]; rfl
  | cons field fields ih =>
    obtain ⟨hname, hsize⟩ := h field (List.mem_cons_self ..)
    rw [List.flatMap_cons, List.append_assoc, parse_serializeField hname hsize, List.map_cons,
      Std.ExtTreeMap.insertMany_cons]
    have hstore : s.store (upper field.1) field.2 =
        { s with currentRecord := s.currentRecord.insert (upper field.1) field.2 } := by
      rw [ParseState.store, hs]
      rfl
    rw [hstore]
    exact ih (fun f hf ↦ h f (List.mem_cons_of_mem _ hf)) hs

omit [UnicodeData] in
/-- A record is the map of its own entries. -/
theorem insertMany_toList (record : Record) : (∅ : Record).insertMany record.toList = record := by
  refine Std.ExtTreeMap.ext_getElem? fun k ↦ ?_
  cases hk : record[k]? with
  | none =>
    rw [Std.ExtTreeMap.getElem?_insertMany_list_of_contains_eq_false, Std.ExtTreeMap.getElem?_empty]
    rw [← Bool.not_eq_true, List.contains_iff_mem, List.mem_map]
    rintro ⟨⟨l, v⟩, hmem, rfl⟩
    rw [Std.ExtTreeMap.mem_toList_iff_getElem?_eq_some.1 hmem] at hk
    cases hk
  | some v =>
    exact Std.ExtTreeMap.getElem?_insertMany_list_of_mem Std.ReflCmp.compare_self
      Std.ExtTreeMap.distinct_keys_toList (Std.ExtTreeMap.mem_toList_iff_getElem?_eq_some.2 hk)

omit [UnicodeData] in
theorem mem_of_mem_record {record : Record} {field : String × String}
    (h : field ∈ record.toList) : field.1 ∈ record := by
  rw [Std.ExtTreeMap.mem_iff_isSome_getElem?, Std.ExtTreeMap.mem_toList_iff_getElem?_eq_some.1 h,
    Option.isSome_some]

omit [UnicodeData] in
theorem safe_of_mem_record {record : Record} (hnames : ∀ name ∈ record, SafeName name)
    (hsize : record.FitsBytes) : ∀ field ∈ record.toList, SafeName field.1 ∧ FitsBytes field.2 :=
  fun field hfield ↦ ⟨hnames field.1 (mem_of_mem_record hfield),
    hsize field.1 field.2 (Std.ExtTreeMap.mem_toList_iff_getElem?_eq_some.1 hfield)⟩

/-- A record of upper-case names is read back as it is. -/
theorem readBack_eq_self {record : Record} (h : ∀ name ∈ record, TagName name) :
    readBack record = record := by
  have hsame : (record.toList.map fun field ↦ (upper field.1, field.2)) = record.toList := by
    refine (List.map_congr_left fun field hfield ↦ ?_).trans (List.map_id _)
    rw [(h field.1 (mem_of_mem_record hfield)).upper_eq]
    rfl
  rw [readBack, hsame, insertMany_toList]

omit [UnicodeData] in
/-- Of the entries that are laid over a record, any will do that agrees with those of its name. -/
theorem getElem?_insertMany_of_mem {fields : List (String × String)} {k v : String}
    (hsame : ∀ field ∈ fields, field.1 = k → field.2 = v) {d : Record}
    (h : d[k]? = some v ∨ (k, v) ∈ fields) : (d.insertMany fields)[k]? = some v := by
  induction fields generalizing d with
  | nil =>
    rw [Std.ExtTreeMap.insertMany_nil]
    exact h.resolve_right List.not_mem_nil
  | cons field fields ih =>
    rw [Std.ExtTreeMap.insertMany_cons]
    refine ih (fun f hf ↦ hsame f (List.mem_cons_of_mem _ hf)) ?_
    simp only [Std.ExtTreeMap.getElem?_insert, Std.compare_eq_iff_eq]
    by_cases hk : field.1 = k
    · exact .inl (by rw [if_pos hk, hsame field (List.mem_cons_self ..) hk])
    · rw [if_neg hk]
      refine h.imp_right fun hmem ↦ (List.mem_cons.1 hmem).resolve_left ?_
      rintro rfl
      exact hk rfl

/-- A field that no other field is taken for keeps its value. -/
theorem getElem?_readBack {record : Record} {k v : String} (hv : record[k]? = some v)
    (hk : upper k = k) (halone : ∀ j ∈ record, upper j = k → j = k) :
    (readBack record)[k]? = some v := by
  refine getElem?_insertMany_of_mem (fun field hfield heq ↦ ?_) (.inr ?_)
  · obtain ⟨⟨j, w⟩, hmem, rfl⟩ := List.mem_map.1 hfield
    obtain rfl := halone j (mem_of_mem_record hmem) heq
    exact Option.some.inj ((Std.ExtTreeMap.mem_toList_iff_getElem?_eq_some.1 hmem).symm.trans hv)
  · exact List.mem_map.2
      ⟨(k, v), Std.ExtTreeMap.mem_toList_iff_getElem?_eq_some.2 hv, Prod.ext hk rfl⟩

theorem readBack_ne_empty {record : Record} (h : record ≠ ∅) : readBack record ≠ ∅ := by
  have hlist : record.toList ≠ [] := fun hnil ↦ h (by rw [← insertMany_toList record, hnil]; rfl)
  rw [readBack, Ne, ← Std.ExtTreeMap.isEmpty_iff, Std.ExtTreeMap.isEmpty_insertMany_list]
  simpa using hlist

/-- A serialized record is read back at its `<EOR>`. -/
theorem parse_fieldsEor {record : Record} (hnames : ∀ name ∈ record, SafeName name)
    (hsize : record.FitsBytes) (hne : record ≠ ∅) {s : ParseState} (hs : s.inHeader = false)
    (hcur : s.currentRecord = ∅) (rest : List Char) :
    parse s ((record.toList.flatMap fun field ↦ serializeField field.1 field.2) ++
      ("<EOR>".toList ++ rest)) =
      parse { s with
        records := s.records ++ [readBack record]
        recordIndex := s.recordIndex + 1 } rest := by
  have heor : upperChars "EOR".toList = "EOR".toList := upperChars_eq_self (by simp)
  have hend : "<EOR>".toList ++ rest = ['<'] ++ "EOR".toList ++ ['>'] ++ rest := rfl
  have hfull : (!(readBack record).isEmpty) = true := by
    rw [Bool.not_eq_true', ← Bool.not_eq_true, Std.ExtTreeMap.isEmpty_iff]
    exact readBack_ne_empty hne
  have hcontrol : ∀ t : ParseState, t.inHeader = false → t.currentRecord = readBack record →
      handleTag t "EOR".toList rest =
        ({ t with
            records := t.records ++ [readBack record]
            currentRecord := ∅
            recordIndex := t.recordIndex + 1 }, rest) := by
    intro t ht hrec
    rw [handleTag, heor, if_neg (by decide), if_pos rfl, ht, hrec, hfull]
    rfl
  rw [parse_serializeFields (safe_of_mem_record hnames hsize) hs, hcur, ← readBack, hend,
    parse_tag (by decide), hcontrol { s with currentRecord := readBack record } hs rfl]

/-- A serialized record is read back. -/
theorem parse_serializeRecord {record : Record} (hnames : ∀ name ∈ record, SafeName name)
    (hsize : record.FitsBytes) (hne : record ≠ ∅) {s : ParseState} (hs : s.inHeader = false)
    (hcur : s.currentRecord = ∅) (rest : List Char) :
    parse s (serializeRecord record ++ rest) =
      parse { s with
        records := s.records ++ [readBack record]
        recordIndex := s.recordIndex + 1 } rest := by
  have htext : "<EOR>\n\n".toList ++ rest = "<EOR>".toList ++ ("\n\n".toList ++ rest) := rfl
  rw [serializeRecord, List.append_assoc, htext, parse_fieldsEor hnames hsize hne hs hcur,
    parse_skip (by decide)]

/-- So is a sequence of records. -/
theorem parse_serializeRecords_append {records : List Record}
    (hne : ∀ record ∈ records, record ≠ ∅)
    (hnames : ∀ record ∈ records, ∀ name ∈ record, SafeName name)
    (hsize : ∀ record ∈ records, record.FitsBytes) {s : ParseState}
    (hs : s.inHeader = false) (hcur : s.currentRecord = ∅) (rest : List Char) :
    parse s (records.flatMap serializeRecord ++ rest) =
      parse { s with
        records := s.records ++ records.map readBack
        recordIndex := s.recordIndex + records.length } rest := by
  induction records generalizing s with
  | nil =>
    rw [List.flatMap_nil, List.map_nil, List.append_nil]
    rfl
  | cons record records ih =>
    rw [List.flatMap_cons, List.append_assoc,
      parse_serializeRecord (hnames record (List.mem_cons_self ..))
        (hsize record (List.mem_cons_self ..)) (hne record (List.mem_cons_self ..)) hs hcur]
    refine (ih (fun r hr ↦ hne r (List.mem_cons_of_mem _ hr))
      (fun r hr ↦ hnames r (List.mem_cons_of_mem _ hr))
      (fun r hr ↦ hsize r (List.mem_cons_of_mem _ hr)) ?_ ?_).trans ?_
    · exact hs
    · exact hcur
    · simp only [List.append_assoc, List.singleton_append, List.map_cons, List.length_cons,
        Nat.add_assoc, Nat.add_comm 1]

theorem parse_nil (s : ParseState) : parse s [] = s := parseLoop_nil 0 s

/-- A serialized file, to its end. -/
theorem parse_serializeRecords {records : List Record} (hne : ∀ record ∈ records, record ≠ ∅)
    (hnames : ∀ record ∈ records, ∀ name ∈ record, SafeName name)
    (hsize : ∀ record ∈ records, record.FitsBytes) {s : ParseState}
    (hs : s.inHeader = false) (hcur : s.currentRecord = ∅) :
    parse s (records.flatMap serializeRecord) =
      { s with
        records := s.records ++ records.map readBack
        recordIndex := s.recordIndex + records.length } := by
  have happend := parse_serializeRecords_append hne hnames hsize hs hcur []
  rwa [List.append_nil, parse_nil] at happend

/-- The header is skipped, and ends the header. -/
theorem parse_adifHeader (rest : List Char) :
    parse { inHeader := true } (adifHeader ++ rest) = parse { inHeader := false } rest := by
  have hver : TagName "ADIF_VER" :=
    ⟨by rw [upper, upperChars_eq_self (by simp), String.ofList_toList], by decide, by decide⟩
  have hprogram : TagName "PROGRAMID" :=
    ⟨by rw [upper, upperChars_eq_self (by simp), String.ofList_toList], by decide, by decide⟩
  have heoh : upperChars "EOH".toList = "EOH".toList := upperChars_eq_self (by simp)
  have hheader : adifHeader = serializeField "ADIF_VER" "3.1.4" ++ (['\n'] ++
      (serializeField "PROGRAMID" "ollog" ++
        (['\n'] ++ (['<'] ++ "EOH".toList ++ ['>'] ++ "\n\n".toList)))) := by decide
  rw [hheader, List.append_assoc, parse_serializeField hver.safe (by decide), List.append_assoc,
    parse_skip (by decide), List.append_assoc, parse_serializeField hprogram.safe (by decide),
    List.append_assoc, parse_skip (by decide), List.append_assoc, parse_tag (by decide), handleTag, if_pos heoh,
    parse_skip (by decide)]
  rfl

/-- A file with the header of an export is read like the text behind the header. -/
theorem parseAdi_adifHeader (rest : List Char) : parseAdi (adifHeader ++ rest) =
    ((parse { inHeader := false } rest).records, (parse { inHeader := false } rest).errors) := by
  have heoh : upperChars "<EOH>".toList = "<EOH>".toList := upperChars_eq_self (by simp)
  have hsplit : adifHeader = "<ADIF_VER:5>3.1.4\n<PROGRAMID:5>ollog\n".toList ++
      "<EOH>".toList ++ "\n\n".toList := by decide
  have hscan : decide ("<EOH>".toList <:+: upperChars (adifHeader ++ rest)) = true := by
    rw [decide_eq_true_eq, hsplit, upperChars_append, upperChars_append, upperChars_append, heoh,
      List.append_assoc]
    exact ⟨_, _, rfl⟩
  rw [parseAdi, hscan, parse_adifHeader]

omit [UnicodeData] in
theorem exportStream_eq (records : List Record) :
    exportStream records = adifHeader ++ records.flatMap serializeRecord := by
  simp [exportStream, serializeAdi]

omit [UnicodeData] in
theorem length_encodeUtf8_mono {cs ds : List Char} (h : cs <:+: ds) :
    (encodeUtf8 cs).length ≤ (encodeUtf8 ds).length := by
  obtain ⟨before, behind, rfl⟩ := h
  rw [encodeUtf8_append, encodeUtf8_append, List.length_append, List.length_append]
  omega

omit [UnicodeData] in
/-- Every value of an export is a part of its text, so it can be encoded if the export can. -/
theorem fitsBytes_of_exportStream {records : List Record}
    (h : (encodeUtf8 (exportStream records)).length ≤ maxSize) :
    ∀ record ∈ records, record.FitsBytes := by
  intro record hrecord name value hvalue
  refine le_trans (length_encodeUtf8_mono ?_) h
  have hfield : value.toList <:+: serializeField name value := (List.suffix_append _ _).isInfix
  have hinfix : serializeField name value <:+: serializeRecord record := by
    obtain ⟨before, behind, hsplit⟩ := List.append_of_mem
      (Std.ExtTreeMap.mem_toList_iff_getElem?_eq_some.2 hvalue)
    rw [serializeRecord, hsplit, List.flatMap_append, List.flatMap_cons, List.append_assoc,
      List.append_assoc]
    exact ((List.prefix_append _ _).isInfix).trans (List.suffix_append _ _).isInfix
  obtain ⟨before, behind, rfl⟩ := List.append_of_mem hrecord
  rw [exportStream_eq, List.flatMap_append, List.flatMap_cons]
  refine (hfield.trans hinfix).trans ?_
  exact ((List.prefix_append _ _).isInfix.trans (List.suffix_append _ _).isInfix).trans
    (List.suffix_append _ _).isInfix

/-- What an export emits is read back record by record, and without errors. -/
theorem parseAdi_exportStream_readBack {records : List Record}
    (hne : ∀ record ∈ records, record ≠ ∅)
    (hnames : ∀ record ∈ records, ∀ name ∈ record, SafeName name)
    (hsize : ∀ record ∈ records, record.FitsBytes) :
    parseAdi (exportStream records) = (records.map readBack, []) := by
  rw [exportStream_eq, parseAdi_adifHeader, parse_serializeRecords hne hnames hsize rfl rfl]
  rfl

/-- **Round trip.**  What an export emits is parsed to the records that were exported, in order,
field by field, and without errors. -/
theorem parseAdi_exportStream (records : List Record) (hne : ∀ record ∈ records, record ≠ ∅)
    (hnames : ∀ record ∈ records, ∀ name ∈ record, TagName name)
    (hsize : ∀ record ∈ records, record.FitsBytes) :
    parseAdi (exportStream records) = (records, []) := by
  have hsame : records.map readBack = records :=
    (List.map_congr_left fun record hrecord ↦ readBack_eq_self (hnames record hrecord)).trans
      (List.map_id _)
  rw [parseAdi_exportStream_readBack hne (fun record hrecord name hname ↦
    (hnames record hrecord name hname).safe) hsize, hsame]

end RoundTrip

section

attribute [local instance] UnicodeData.ascii

/-- A record whose values look like tags, with a character of two bytes. -/
def Sample.tagged : Record := ((∅ : Record).insert "CALL" "<EOR>é").insert "NOTES" "<EOH>\n<CALL:3>"

theorem parseAdi_exportStream_of_tagged :
    parseAdi (exportStream [Sample.tagged, Sample.tagged]) =
      ([Sample.tagged, Sample.tagged], []) := by
  have heq : ∀ record ∈ [Sample.tagged, Sample.tagged], record = Sample.tagged := by simp
  refine parseAdi_exportStream _ (fun record hrecord ↦ ?_) (fun record hrecord name hname ↦ ?_)
    fun record hrecord ↦ ?_
  · rw [heq record hrecord, Sample.tagged]
    simp
  · rw [heq record hrecord, Sample.tagged, Std.ExtTreeMap.mem_insert, Std.ExtTreeMap.mem_insert,
      Std.compare_eq_iff_eq, Std.compare_eq_iff_eq] at hname
    obtain rfl | rfl | hname := hname
    · exact ⟨by rw [upper, upperChars_eq_self (by simp), String.ofList_toList], by decide,
        by decide⟩
    · exact ⟨by rw [upper, upperChars_eq_self (by simp), String.ofList_toList], by decide,
        by decide⟩
    · simp at hname
  · rw [heq record hrecord]
    exact Record.fitsBytes_insert (Record.fitsBytes_insert Record.fitsBytes_empty (by decide))
      (by decide)

end

end Ollog

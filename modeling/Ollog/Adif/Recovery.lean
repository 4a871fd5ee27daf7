import Ollog.Adif.Header

/-!
# Bad tags and torn files

A tag whose length is not a number is reported and passed over, so it does no harm to its record or
to the records around it (`parseAdi_badTag`).  What counts as a number is whatever `int` accepts, and
`+5` or `-1` are read as lengths and not reported (`reportsBadTag_iff`).

A file that ends in the middle of a record is read up to the last complete record, and the rest is
dropped without an error (`accountsForPrefix_iff`).
-/

set_option autoImplicit false

namespace Ollog

section

variable [UnicodeData]

/-! ## A bad tag -/

/-- `<name:length>`. -/
def dataTag (name length : List Char) : List Char := '<' :: (name ++ ':' :: (length ++ ['>']))

/-- The characters that give a tag its shape. -/
def tagSymbols : List Char := ['<', '>', ':']

/-- A file in which a tag has been inserted at the beginning of a record. -/
def withTag (before : List Record) (name length : List Char) (record : Record)
    (behind : List Record) : List Char :=
  serializeAdi before none ++ (dataTag name length ++ serializeAdi (record :: behind) none)

/-- The records of a file that can be read back. -/
def Serializable (records : List Record) : Prop :=
  ∀ record ∈ records, record ≠ ∅ ∧ (∀ name ∈ record, TagName name) ∧ record.FitsBytes

/-- A tag is reported wherever it stands, and changes nothing else. -/
def ReportsBadTag (name length : List Char) : Prop :=
  ∀ before record behind, Serializable (before ++ record :: behind) →
    ¬ headerMarker <:+: upperChars (withTag before name length record behind) →
    ∃ error, parseAdi (withTag before name length record behind) =
      (before ++ record :: behind, [⟨before.length, error⟩])

theorem map_readBack {records : List Record} (h : Serializable records) :
    records.map readBack = records :=
  (List.map_congr_left fun record hrecord ↦ readBack_eq_self (h record hrecord).2.1).trans
    (List.map_id _)

/-- What is done with a data tag whose name and length hold none of the characters of a tag. -/
theorem parse_dataTag {name length : List Char} (hname : ∀ c ∈ tagSymbols, c ∉ name)
    (hlength : ∀ c ∈ tagSymbols, c ∉ length) (s : ParseState) (rest : List Char) :
    parse s (dataTag name length ++ rest) =
      parse (parseData s (name ++ ':' :: length) name length rest).1
        (parseData s (name ++ ':' :: length) name length rest).2 := by
  have htext : dataTag name length ++ rest =
      ['<'] ++ (name ++ ':' :: length) ++ ['>'] ++ rest := by
    simp only [dataTag, List.append_assoc, List.cons_append, List.nil_append]
  have hgt : '>' ∉ name ++ ':' :: length := by
    intro hmem
    obtain hmem | hmem := List.mem_append.1 hmem
    · exact hname '>' (by decide) hmem
    obtain hmem | hmem := List.mem_cons.1 hmem
    · exact absurd hmem (by decide)
    · exact hlength '>' (by decide) hmem
  have hcolon : ':' ∈ name ++ ':' :: length := List.mem_append_right _ (List.mem_cons_self ..)
  rw [htext, parse_tag hgt, handleTag, if_neg (upperChars_ne_of_colon hcolon (by decide)),
    if_neg (upperChars_ne_of_colon hcolon (by decide)),
    splitChars_append_cons (hname ':' (by decide)),
    splitChars_of_not_mem (hlength ':' (by decide))]

/-- **A tag whose length is not a number** is reported, with the index of its record, and every
record is read. -/
theorem parseAdi_badTag {name length : List Char} (hname : ∀ c ∈ tagSymbols, c ∉ name)
    (hlength : ∀ c ∈ tagSymbols, c ∉ length) (hbad : intOfText length = none)
    {before behind : List Record} {record : Record}
    (h : Serializable (before ++ record :: behind))
    (hmarker : ¬ headerMarker <:+: upperChars (withTag before name length record behind)) :
    parseAdi (withTag before name length record behind) = (before ++ record :: behind,
      [⟨before.length, "Invalid byte length in tag: <" ++
        String.ofList (name ++ ':' :: length) ++ ">"⟩]) := by
  have hout : decide ("<EOH>".toList <:+:
      upperChars (withTag before name length record behind)) = false := decide_eq_false hmarker
  obtain ⟨hbefore, hbehind⟩ := List.forall_mem_append.1 h
  have hsafe : ∀ {records : List Record}, Serializable records →
      ∀ record ∈ records, ∀ name ∈ record, SafeName name := fun h record hrecord name hname ↦
    ((h record hrecord).2.1 name hname).safe
  have hsize : ∀ {records : List Record}, Serializable records →
      ∀ record ∈ records, record.FitsBytes := fun h record hrecord ↦ (h record hrecord).2.2
  rw [parseAdi, hout, withTag, serializeAdi, serializeAdi, List.nil_append, List.nil_append,
    parse_serializeRecords_append (fun r hr ↦ (hbefore r hr).1) (hsafe hbefore) (hsize hbefore) rfl
      rfl,
    parse_dataTag hname hlength, parseData, hbad]
  dsimp only
  rw [if_neg Bool.false_ne_true,
    parse_serializeRecords (fun r hr ↦ (hbehind r hr).1) (hsafe hbehind) (hsize hbehind) rfl rfl,
    map_readBack hbefore, map_readBack hbehind, Nat.zero_add]
  rfl

/-! ## A length that is a number after all -/

/-- A tag with a colon does not make a marker, and neither does what upper-casing makes of it. -/
theorem not_marker_dataTag (hlaws : UnicodeData.UpperLaws) {name length : List Char}
    (hname : ∀ c ∈ tagSymbols, c ∉ name) (hlength : ∀ c ∈ tagSymbols, c ∉ length)
    {rest : List Char} (hrest : ¬ headerMarker <:+: upperChars rest) :
    ¬ headerMarker <:+: upperChars (dataTag name length ++ rest) := by
  have hsymbol : ∀ cs : List Char, (∀ c ∈ tagSymbols, c ∉ cs) →
      ∀ c ∈ tagSymbols, c ∉ upperChars cs := by
    intro cs hcs c hsymbol hmem
    have hascii : ∀ c ∈ tagSymbols, (decide (c.toNat < 128) && !c.isUpper) = true :=
      List.all_eq_true.1 (by decide)
    have hc := hascii c hsymbol
    rw [Bool.and_eq_true, decide_eq_true_eq, Bool.not_eq_true'] at hc
    rw [upperChars, List.mem_flatMap] at hmem
    obtain ⟨d, hd, hmem⟩ := hmem
    have hupper := hlaws.upper_symbol d c hmem hc.1 fun heq ↦ hcs c hsymbol (heq ▸ hd)
    rw [hc.2] at hupper
    cases hupper
  have hsymbols : upperChars ['<'] = ['<'] ∧ upperChars [':'] = [':'] ∧ upperChars ['>'] = ['>'] :=
    ⟨upperChars_of_all (by decide), upperChars_of_all (by decide), upperChars_of_all (by decide)⟩
  have htext : upperChars (dataTag name length ++ rest) = ('<' :: upperChars name) ++ ':' ::
      ((upperChars length ++ ['>']) ++ upperChars rest) := by
    have hsplit : dataTag name length ++ rest =
        ['<'] ++ (name ++ ([':'] ++ (length ++ (['>'] ++ rest)))) := by
      simp only [dataTag, List.append_assoc, List.cons_append, List.nil_append]
    rw [hsplit]
    simp only [upperChars_append, hsymbols]
    simp only [List.append_assoc, List.cons_append, List.nil_append]
  have hgt : '>' ∉ '<' :: upperChars name := fun hmem ↦
    (List.mem_cons.1 hmem).elim (by decide) (hsymbol name hname '>' (by decide))
  have hlt : '<' ∉ ':' :: (upperChars length ++ ['>']) := by
    intro hmem
    obtain hmem | hmem := List.mem_cons.1 hmem
    · exact absurd hmem (by decide)
    obtain hmem | hmem := List.mem_append.1 hmem
    · exact hsymbol length hlength '<' (by decide) hmem
    · exact absurd hmem (by decide)
  rw [htext, marker_append_colon hgt, ← List.cons_append, marker_append_of_not_mem hlt]
  exact hrest

/-- A record with one field, whose value is empty. -/
def blankRecord : Record := (∅ : Record).insert "X" ""

/-- Wherever in its text the parser begins to read it, there is no error. -/
theorem errors_parse_blankRecord (s : ParseState) (n : Nat) :
    (parse s ((serializeRecord blankRecord).drop n)).errors = s.errors := by
  have heor : upperChars "EOR".toList = "EOR".toList := upperChars_of_all (by decide)
  have hend : ∀ s : ParseState, (parse s "<EOR>\n\n".toList).errors = s.errors := by
    intro s
    have htext : "<EOR>\n\n".toList = ['<'] ++ "EOR".toList ++ ['>'] ++ "\n\n".toList := rfl
    rw [htext, parse_tag (by decide), handleTag, heor, if_neg (by decide), if_pos rfl]
    dsimp only
    rw [parse_of_not_mem (by decide)]
    split <;> rfl
  have hrecord : serializeRecord blankRecord = serializeField "X" "" ++ "<EOR>\n\n".toList := by
    decide +kernel
  have hfield : serializeField "X" "" = "<X:0>".toList := by decide
  rw [hrecord]
  by_cases hzero : n = 0
  · rw [hzero, List.drop_zero, parse_serializeField ⟨by decide, by decide⟩ (by decide),
      hend,
      ParseState.store]
    split <;> rfl
  by_cases hn : n ≤ "<X:0>".toList.length
  · rw [hfield, List.drop_append_of_le_length hn, parse_skip, hend]
    exact fun hmem ↦ absurd ((List.drop_subset_drop_left _ (Nat.pos_of_ne_zero hzero)) hmem)
      (by decide)
  · rw [hfield, parse_of_not_mem]
    exact fun hmem ↦ absurd ((List.drop_subset_drop_left _ (Nat.not_le.1 hn)) hmem) (by decide)

/-- In front of that record, a tag whose length is a number goes unreported. -/
theorem errors_parse_dataTag {name length : List Char} (hname : ∀ c ∈ tagSymbols, c ∉ name)
    (hlength : ∀ c ∈ tagSymbols, c ∉ length) {byteLength : Int}
    (hint : intOfText length = some byteLength) {s : ParseState} (hs : s.errors = []) :
    (parse s (dataTag name length ++ serializeRecord blankRecord)).errors = [] := by
  rw [parse_dataTag hname hlength, parseData, hint]
  dsimp only
  rw [errors_parse_blankRecord]
  split
  · exact hs
  · exact hs

/-- **A tag is reported wherever it stands, and changes nothing else**, if and only if `int` does
not accept its length. -/
theorem reportsBadTag_iff (hlaws : UnicodeData.UpperLaws) {name length : List Char}
    (hname : ∀ c ∈ tagSymbols, c ∉ name) (hlength : ∀ c ∈ tagSymbols, c ∉ length) :
    ReportsBadTag name length ↔ intOfText length = none := by
  refine ⟨fun h ↦ ?_, fun hbad before record behind hrecords hmarker ↦
    ⟨_, parseAdi_badTag hname hlength hbad hrecords hmarker⟩⟩
  by_contra hnone
  obtain ⟨byteLength, hint⟩ := Option.ne_none_iff_exists'.1 hnone
  have hrecord : serializeAdi [blankRecord] none = serializeRecord blankRecord := by
    rw [serializeAdi, List.nil_append, List.flatMap_singleton]
  have hserializable : Serializable [blankRecord] := by
    intro record hmem
    rw [List.mem_singleton.1 hmem]
    refine ⟨Std.ExtTreeMap.insert_ne_empty, fun name hname ↦ ?_,
      Record.fitsBytes_insert Record.fitsBytes_empty (by decide)⟩
    rw [blankRecord, Std.ExtTreeMap.mem_insert, Std.compare_eq_iff_eq] at hname
    obtain rfl := hname.resolve_right Std.ExtTreeMap.not_mem_empty
    exact ⟨by rw [upper, upperChars_of_all (by decide), String.ofList_toList], by decide, by decide⟩
  have hout : ¬ headerMarker <:+: upperChars (withTag [] name length blankRecord []) := by
    have hupper : upperChars (serializeRecord blankRecord) = "<X:0><EOR>\n\n".toList := by
      have htext : serializeRecord blankRecord = "<X:0><EOR>\n\n".toList := by decide +kernel
      rw [htext, upperChars_of_all (by decide)]
    rw [withTag, hrecord]
    exact not_marker_dataTag hlaws hname hlength (by rw [hupper]; decide)
  obtain ⟨error, hparse⟩ := h [] blankRecord [] hserializable hout
  have herrors := congrArg Prod.snd hparse
  have htext : withTag [] name length blankRecord [] =
      dataTag name length ++ serializeRecord blankRecord := by
    rw [withTag, hrecord]
    rfl
  have hnil : (parseAdi (withTag [] name length blankRecord [])).2 = [] := by
    rw [htext]
    exact errors_parse_dataTag hname hlength hint rfl
  rw [hnil] at herrors
  cases herrors

/-! ## A file that breaks off -/

omit [UnicodeData] in
theorem prefix_append_cases {α : Type} {p l r : List α} (h : p <+: l ++ r) :
    p <+: l ∨ ∃ q, p = l ++ q ∧ q <+: r := by
  obtain hl | ⟨q, rfl⟩ := List.prefix_or_prefix_of_prefix h (List.prefix_append l r)
  · exact .inl hl
  · exact .inr ⟨q, rfl, (List.prefix_append_right_inj l).1 h⟩

omit [UnicodeData] in
/-- A prefix of a list of texts ends in one of them, or between two. -/
theorem prefix_flatMap {α β : Type} {f : α → List β} {xs : List α} {p : List β}
    (h : p <+: xs.flatMap f) : ∃ k q, p = (xs.take k).flatMap f ++ q ∧
      (q = [] ∨ ∃ x, xs[k]? = some x ∧ q <+: f x) := by
  induction xs generalizing p with
  | nil =>
    obtain rfl := List.prefix_nil.1 h
    exact ⟨0, [], rfl, .inl rfl⟩
  | cons x xs ih =>
    rw [List.flatMap_cons] at h
    obtain hx | ⟨p', rfl, hxs⟩ := prefix_append_cases h
    · exact ⟨0, p, rfl, .inr ⟨x, rfl, hx⟩⟩
    · obtain ⟨k, q, rfl, hq⟩ := ih hxs
      exact ⟨k + 1, q, by rw [List.take_succ_cons, List.flatMap_cons, List.append_assoc], hq⟩

/-- A tag that breaks off is no tag. -/
theorem parse_tagPrefix {tag q : List Char} (htag : '>' ∉ tag) (h : q <+: '<' :: tag)
    (s : ParseState) : parse s q = s := by
  cases q with
  | nil => exact parse_nil s
  | cons c q =>
    obtain ⟨rfl, hq⟩ := List.cons_prefix_cons.1 h
    exact @parse_unclosed _ [] _ List.not_mem_nil (fun hmem ↦ htag (hq.subset hmem)) s

/-- A field whose value breaks off is read with what there is of the value. -/
theorem parse_valuePrefix {name value : String} (h : SafeName name) (hsize : FitsBytes value)
    {v : List Char} (hv : v <+: value.toList) (s : ParseState) :
    parse s (['<'] ++ (name.toList ++ ':' :: (toString (encodeUtf8 value.toList).length).toList) ++
      ['>'] ++ v) = s.store (upper name) (String.ofList v) := by
  have hgt : '>' ∉ name.toList ++ ':' :: (toString (encodeUtf8 value.toList).length).toList := by
    simp only [List.mem_append, List.mem_cons, not_or]
    exact ⟨h.notMem_gt, by decide, notMem_repr_of_not_isDigit (by decide) _⟩
  have hcolon : ':' ∈ name.toList ++ ':' :: (toString (encodeUtf8 value.toList).length).toList :=
    List.mem_append_right _ (List.mem_cons_self ..)
  have hlength : intOfText (toString (encodeUtf8 value.toList).length).toList =
      some ((encodeUtf8 value.toList).length : Int) := intOfText_repr hsize.lt
  have hle : (encodeUtf8 v).length ≤ (encodeUtf8 value.toList).length := by
    obtain ⟨rest, hrest⟩ := hv
    rw [← hrest, encodeUtf8_append, List.length_append]
    exact Nat.le_add_right _ _
  have hvalue : decodeUtf8 (takeBytes (encodeUtf8 value.toList).length (encodeUtf8 v)) = v := by
    rw [takeBytes, if_pos (Int.natCast_nonneg _), Int.toNat_natCast, List.take_of_length_le hle,
      decodeUtf8_encodeUtf8]
  rw [parse_tag hgt, handleTag, if_neg (upperChars_ne_of_colon hcolon (by decide)),
    if_neg (upperChars_ne_of_colon hcolon (by decide)), splitChars_append_cons h.notMem_colon,
    splitChars_of_not_mem (notMem_repr_of_not_isDigit (by decide) _)]
  dsimp only
  rw [parseData, hlength]
  dsimp only
  rw [hvalue, List.drop_length, parse_nil, ParseState.store]
  rfl

omit [UnicodeData] in
theorem ParseState.store_eq (s : ParseState) (name value : String) :
    ∃ record, s.store name value = { s with currentRecord := record } := by
  rw [ParseState.store]
  split
  · exact ⟨s.currentRecord, rfl⟩
  · exact ⟨_, rfl⟩

/-- **A record that breaks off** before the end of its `<EOR>` is not returned, and makes no error. -/
theorem parse_fieldsPrefix {fields : List (String × String)}
    (h : ∀ field ∈ fields, SafeName field.1 ∧ FitsBytes field.2) {q : List Char}
    (hq : q <+: (fields.flatMap fun field ↦ serializeField field.1 field.2) ++ "<EOR".toList)
    (s : ParseState) : ∃ record, parse s q = { s with currentRecord := record } := by
  induction fields generalizing q s with
  | nil =>
    rw [@parse_tagPrefix _ "EOR".toList _ (by decide) hq]
    exact ⟨s.currentRecord, rfl⟩
  | cons field fields ih =>
    obtain ⟨hname, hsize⟩ := h field (List.mem_cons_self ..)
    have hsplit : serializeField field.1 field.2 = ('<' :: (field.1.toList ++ ':' ::
        (toString (encodeUtf8 field.2.toList).length).toList)) ++ (['>'] ++ field.2.toList) := by
      simp only [serializeField, List.append_assoc, List.cons_append, List.nil_append]
    rw [List.flatMap_cons, List.append_assoc] at hq
    obtain hfield | ⟨q, rfl, hfields⟩ := prefix_append_cases hq
    · rw [hsplit] at hfield
      obtain htag | ⟨v, rfl, hvalue⟩ := prefix_append_cases hfield
      · -- The tag breaks off.
        rw [parse_tagPrefix ?_ htag]
        · exact ⟨s.currentRecord, rfl⟩
        · simp only [List.mem_append, List.mem_cons, not_or]
          exact ⟨hname.notMem_gt, by decide, notMem_repr_of_not_isDigit (by decide) _⟩
      · cases v with
        | nil =>
          rw [List.append_nil, parse_tagPrefix ?_ List.prefix_rfl]
          · exact ⟨s.currentRecord, rfl⟩
          · simp only [List.mem_append, List.mem_cons, not_or]
            exact ⟨hname.notMem_gt, by decide, notMem_repr_of_not_isDigit (by decide) _⟩
        | cons c v =>
          obtain ⟨rfl, hv⟩ := List.cons_prefix_cons.1 hvalue
          have htext : '<' :: (field.1.toList ++ ':' ::
              (toString (encodeUtf8 field.2.toList).length).toList) ++ '>' :: v =
              ['<'] ++ (field.1.toList ++ ':' ::
                (toString (encodeUtf8 field.2.toList).length).toList) ++ ['>'] ++ v := by
            simp only [List.append_assoc, List.cons_append, List.nil_append]
          rw [htext, parse_valuePrefix hname hsize hv]
          exact s.store_eq _ _
    · obtain ⟨record, hstore⟩ := s.store_eq (upper field.1) field.2
      obtain ⟨record', hrest⟩ := ih (fun f hf ↦ h f (List.mem_cons_of_mem _ hf)) hfields
        { s with currentRecord := record }
      rw [parse_serializeField hname hsize, hstore]
      exact ⟨record', hrest⟩

/-- Where the text of a record begins in an export. -/
def recordStart (records : List Record) (i : Nat) : Nat :=
  (adifHeader ++ (records.take i).flatMap serializeRecord).length

/-- Every record of an export of which a text has at least the first character is returned or
reported, and no other record is returned. -/
structure AccountsFor (records : List Record) (p : List Char) : Prop where
  touched : ∀ (i : Nat) (record : Record), records[i]? = some record →
    recordStart records i < p.length →
    (parseAdi p).1[i]? = some record ∨ ∃ error ∈ (parseAdi p).2, error.recordIndex = i
  same : ∀ (i : Nat) (record : Record), (parseAdi p).1[i]? = some record →
    records[i]? = some record

/-- A text ends with the header of an export, or behind the `<EOR>` of one of its records. -/
def BreaksBetween (records : List Record) (p : List Char) : Prop :=
  ∃ k tail, tail <:+ "\n\n".toList ∧
    p ++ tail = adifHeader ++ (records.take k).flatMap serializeRecord

omit [UnicodeData] in
theorem recordStart_mono (records : List Record) {i k : Nat} (h : i ≤ k) :
    recordStart records i ≤ recordStart records k := by
  obtain ⟨rest, hrest⟩ := List.take_prefix_take_left (l := records) h
  rw [recordStart, recordStart, ← hrest, List.flatMap_append, ← List.append_assoc]
  exact (List.prefix_append ..).length_le

omit [UnicodeData] in
theorem take_succ_of_getElem? {records : List Record} {k : Nat} {record : Record}
    (hk : records[k]? = some record) : records.take (k + 1) = records.take k ++ [record] := by
  rw [List.take_add_one, hk]
  rfl

omit [UnicodeData] in
theorem recordStart_succ {records : List Record} {k : Nat} {record : Record}
    (hk : records[k]? = some record) :
    recordStart records (k + 1) = recordStart records k + (serializeRecord record).length := by
  rw [recordStart, recordStart, take_succ_of_getElem? hk, List.flatMap_append,
    List.flatMap_singleton, ← List.append_assoc, List.length_append]

/-- What is read of a file that breaks off behind some complete records. -/
theorem parseAdi_break {records : List Record} (h : Serializable records) {q : List Char}
    (hq : ∀ s : ParseState, ∃ record, parse s q = { s with currentRecord := record }) :
    parseAdi (adifHeader ++ (records.flatMap serializeRecord ++ q)) = (records, []) := by
  have hsafe : ∀ record ∈ records, ∀ name ∈ record, SafeName name := fun record hrecord name hname ↦
    ((h record hrecord).2.1 name hname).safe
  obtain ⟨record, hparse⟩ := hq { inHeader := false, records := records, recordIndex := records.length }
  rw [parseAdi_adifHeader,
    parse_serializeRecords_append (fun r hr ↦ (h r hr).1) hsafe (fun r hr ↦ (h r hr).2.2) rfl rfl,
    map_readBack h, List.nil_append, Nat.zero_add]
  rw [hparse]

/-- Where a file breaks off that has so many complete records: behind them, or within the next
record, before the end of its `<EOR>`. -/
inductive BreaksAt (records : List Record) (p : List Char) (k : Nat) : Prop
  | between (hbetween : BreaksBetween records p) (hlength : p.length ≤ recordStart records k)
  | within {record : Record} (hk : records[k]? = some record)
      (hlt : recordStart records k < p.length)
      (hlength : p.length + 3 ≤ recordStart records (k + 1))

omit [UnicodeData] in
theorem breaksAt_complete (records : List Record) (k : Nat) :
    BreaksAt records (adifHeader ++ ((records.take k).flatMap serializeRecord ++ [])) k := by
  rw [List.append_nil]
  exact .between ⟨k, [], List.nil_suffix, List.append_nil _⟩ le_rfl

omit [UnicodeData] in
/-- A text that ends before the `>` of an `<EOR>`. -/
theorem breaksAt_fields {records : List Record} {k : Nat} {record : Record}
    (hk : records[k]? = some record) {q : List Char} (hq : q <+: (record.toList.flatMap fun field ↦
      serializeField field.1 field.2) ++ "<EOR".toList) :
    BreaksAt records (adifHeader ++ ((records.take k).flatMap serializeRecord ++ q)) k := by
  by_cases hne : q = []
  · rw [hne]
    exact breaksAt_complete records k
  have hrecord : serializeRecord record = ((record.toList.flatMap fun field ↦
      serializeField field.1 field.2) ++ "<EOR".toList) ++ ">\n\n".toList := by
    rw [serializeRecord, List.append_assoc]
    rfl
  have hlength := hq.length_le
  have hchars : ">\n\n".toList.length = 3 := rfl
  have hstart : (adifHeader ++ ((records.take k).flatMap serializeRecord ++ q)).length =
      recordStart records k + q.length := by
    rw [← List.append_assoc, List.length_append]
    rfl
  have hpos := List.length_pos_iff.2 hne
  refine .within hk (by omega) ?_
  rw [hstart, recordStart_succ hk, hrecord, List.length_append, hchars]
  omega

omit [UnicodeData] in
/-- A text that ends behind it. -/
theorem breaksAt_eor {records : List Record} {k : Nat} {record : Record}
    (hk : records[k]? = some record) {v : List Char} (hv : v <+: "\n\n".toList) :
    BreaksAt records (adifHeader ++ ((records.take k).flatMap serializeRecord ++
      ((record.toList.flatMap fun field ↦ serializeField field.1 field.2) ++
        ("<EOR>".toList ++ v)))) (k + 1) := by
  obtain ⟨tail, htail⟩ := hv
  have htext : adifHeader ++ ((records.take k).flatMap serializeRecord ++
      ((record.toList.flatMap fun field ↦ serializeField field.1 field.2) ++
        ("<EOR>".toList ++ v))) ++ tail =
      adifHeader ++ (records.take (k + 1)).flatMap serializeRecord := by
    rw [take_succ_of_getElem? hk, List.flatMap_append, List.flatMap_singleton, serializeRecord]
    simp only [List.append_assoc]
    rw [htail]
    rfl
  refine .between ⟨k + 1, tail, ⟨v, htail⟩, htext⟩ ?_
  rw [recordStart, ← htext]
  exact (List.prefix_append ..).length_le

/-- **A file that breaks off** is read up to its last complete record, and there are no errors. -/
theorem break_cases {records : List Record} (h : Serializable records) {p : List Char}
    (hheader : adifHeader <+: p) (hp : p <+: exportStream records) :
    ∃ k, parseAdi p = (records.take k, []) ∧ BreaksAt records p k := by
  have htake : ∀ k, Serializable (records.take k) := fun k record hrecord ↦
    h record (List.mem_of_mem_take hrecord)
  obtain ⟨rest, rfl⟩ := hheader
  rw [exportStream_eq, List.prefix_append_right_inj] at hp
  obtain ⟨k, q, rfl, rfl | ⟨record, hk, hq⟩⟩ := prefix_flatMap hp
  · exact ⟨k, parseAdi_break (htake k) fun s ↦ ⟨s.currentRecord, parse_nil s⟩,
      breaksAt_complete records k⟩
  have hmem : record ∈ records := List.mem_of_getElem? hk
  have hnames : ∀ name ∈ record, SafeName name := fun name hname ↦
    ((h record hmem).2.1 name hname).safe
  have hfields : ∀ {q}, q <+: (record.toList.flatMap fun field ↦ serializeField field.1 field.2) ++
      "<EOR".toList → ∃ k', parseAdi (adifHeader ++ ((records.take k).flatMap serializeRecord ++ q)) =
        (records.take k', []) ∧
        BreaksAt records (adifHeader ++ ((records.take k).flatMap serializeRecord ++ q)) k' :=
    fun hq ↦ ⟨k, parseAdi_break (htake k) (parse_fieldsPrefix
      (safe_of_mem_record hnames (h record hmem).2.2) hq), breaksAt_fields hk hq⟩
  have hrecord : serializeRecord record = ((record.toList.flatMap fun field ↦
      serializeField field.1 field.2) ++ "<EOR".toList) ++ ">\n\n".toList := by
    rw [serializeRecord, List.append_assoc]
    rfl
  rw [hrecord] at hq
  obtain hpart | ⟨u, rfl, hu⟩ := prefix_append_cases hq
  · exact hfields hpart
  cases u with
  | nil => exact hfields (by rw [List.append_nil])
  | cons c v =>
    obtain ⟨hc, hv⟩ := List.cons_prefix_cons.1 hu
    obtain rfl : c = '>' := hc
    have htext : (record.toList.flatMap fun field ↦ serializeField field.1 field.2) ++
        "<EOR".toList ++ '>' :: v = (record.toList.flatMap fun field ↦
          serializeField field.1 field.2) ++ ("<EOR>".toList ++ v) := by
      rw [List.append_assoc]
      rfl
    have hblank : '<' ∉ v := fun hmem ↦ absurd (hv.subset hmem) (by decide)
    have hsafe : ∀ record ∈ records.take k, ∀ name ∈ record, SafeName name :=
      fun record hrecord name hname ↦ ((htake k record hrecord).2.1 name hname).safe
    rw [htext]
    refine ⟨k + 1, ?_, breaksAt_eor hk hv⟩
    rw [parseAdi_adifHeader, parse_serializeRecords_append (fun r hr ↦ (htake k r hr).1) hsafe
      (fun r hr ↦ (htake k r hr).2.2) rfl rfl,
      parse_fieldsEor hnames (h record hmem).2.2 (h record hmem).1 rfl rfl, parse_of_not_mem hblank,
      map_readBack (htake k), readBack_eq_self (h record hmem).2.1, take_succ_of_getElem? hk]
    rfl

/-- **A file that breaks off is accounted for** if and only if it breaks off between two records. -/
theorem accountsForPrefix_iff {records : List Record} (h : Serializable records) {p : List Char}
    (hheader : adifHeader <+: p) (hp : p <+: exportStream records) :
    AccountsFor records p ↔ BreaksBetween records p := by
  obtain ⟨k, hparse, hbreak⟩ := break_cases h hheader hp
  cases hbreak with
  | between hbetween hlength =>
    refine iff_of_true ⟨fun i record hi hstart ↦ .inl ?_, fun i record hi ↦ ?_⟩ hbetween
    · have hik : i < k := by
        by_contra hle
        have hmono := recordStart_mono records (Nat.not_lt.1 hle)
        omega
      rw [hparse, List.getElem?_take_of_lt hik]
      exact hi
    · rw [hparse, List.getElem?_take] at hi
      split at hi
      · exact hi
      · cases hi
  | @within record hk hlt hlength =>
    refine iff_of_false (fun haccounts ↦ ?_) ?_
    · obtain hreturned | ⟨error, herror, -⟩ := haccounts.touched k record hk hlt
      · rw [hparse, List.getElem?_take, if_neg (Nat.lt_irrefl k)] at hreturned
        cases hreturned
      · rw [hparse] at herror
        exact absurd herror List.not_mem_nil
    · -- At most two characters are missing, but at least three of the record are.
      rintro ⟨j, tail, htail, htext⟩
      have htwo := htail.length_le
      have hchars : "\n\n".toList.length = 2 := rfl
      have hsum : p.length + tail.length = recordStart records j := by
        rw [recordStart, ← htext, List.length_append]
      rcases Nat.lt_or_ge k j with hkj | hjk
      · have hmono := recordStart_mono records (show k + 1 ≤ j from hkj)
        omega
      · have hmono := recordStart_mono records hjk
        omega

end

section

attribute [local instance] UnicodeData.ascii

/-- A contact with nothing but a callsign. -/
def Sample.callOnly : Record := (∅ : Record).insert "CALL" "W1AW"

theorem serializable_callOnly : Serializable [Sample.callOnly] := by
  intro record hrecord
  rw [List.mem_singleton.1 hrecord]
  refine ⟨Std.ExtTreeMap.insert_ne_empty, fun name hname ↦ ?_,
    Record.fitsBytes_insert Record.fitsBytes_empty (by decide)⟩
  rw [Sample.callOnly, Std.ExtTreeMap.mem_insert, Std.compare_eq_iff_eq] at hname
  obtain rfl := hname.resolve_right Std.ExtTreeMap.not_mem_empty
  exact ⟨by rw [upper, upperChars_of_all (by decide), String.ofList_toList], by decide, by decide⟩

/-- `int` reads `-1`, and everything behind the tag but the last byte is taken for its value: the
contact is lost, and there is no error. -/
theorem not_reportsBadTag_minusOne : Serializable [Sample.callOnly] ∧
    ¬ headerMarker <:+:
      upperChars (withTag [] "FREQ".toList "-1".toList Sample.callOnly []) ∧
    parseAdi (withTag [] "FREQ".toList "-1".toList Sample.callOnly []) = ([], []) ∧
    ¬ ReportsBadTag "FREQ".toList "-1".toList := by
  have hmarker : ¬ headerMarker <:+:
      upperChars (withTag [] "FREQ".toList "-1".toList Sample.callOnly []) := by decide +kernel
  have hparse : parseAdi (withTag [] "FREQ".toList "-1".toList Sample.callOnly []) = ([], []) :=
    Prod.ext (List.length_eq_zero_iff.1 (by decide +kernel))
      (List.length_eq_zero_iff.1 (by decide +kernel))
  refine ⟨serializable_callOnly, hmarker, hparse, fun h ↦ ?_⟩
  obtain ⟨error, heq⟩ := h [] Sample.callOnly [] serializable_callOnly hmarker
  rw [hparse] at heq
  cases heq

/-- A length that is a word is reported. -/
theorem reportsBadTag_word : ReportsBadTag "FREQ".toList "four".toList :=
  (reportsBadTag_iff UnicodeData.upperLaws_ascii (by simp [tagSymbols])
    (by simp [tagSymbols])).2 (by decide)

/-- A file that breaks off in a callsign. -/
def Sample.torn : List Char := adifHeader ++ "<CALL:4>W1".toList

/-- The contact is neither returned nor reported. -/
theorem not_accountsFor_torn : Serializable [Sample.callOnly] ∧ adifHeader <+: Sample.torn ∧
    Sample.torn <+: exportStream [Sample.callOnly] ∧ parseAdi Sample.torn = ([], []) ∧
    ¬ AccountsFor [Sample.callOnly] Sample.torn := by
  have hparse : parseAdi Sample.torn = ([], []) :=
    Prod.ext (List.length_eq_zero_iff.1 (by decide +kernel))
      (List.length_eq_zero_iff.1 (by decide +kernel))
  refine ⟨serializable_callOnly, List.prefix_append .., by decide +kernel, hparse, fun h ↦ ?_⟩
  obtain hreturned | ⟨error, herror, -⟩ := h.touched 0 Sample.callOnly rfl (by decide +kernel)
  · rw [hparse] at hreturned
    cases hreturned
  · rw [hparse] at herror
    exact absurd herror List.not_mem_nil

/-- A file that is complete is accounted for. -/
theorem accountsFor_complete :
    AccountsFor [Sample.callOnly] (exportStream [Sample.callOnly]) :=
  (accountsForPrefix_iff serializable_callOnly (List.prefix_append ..) List.prefix_rfl).2
    ⟨1, [], List.nil_suffix, (List.append_nil _).trans (exportStream_eq _)⟩

end

end Ollog

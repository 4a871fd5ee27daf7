import Ollog.Lib.OrderedDict
import Ollog.Python.Exceptions
import Ollog.Qso.CustomFields

/-!
# ACLog messages

ACLog speaks in tags: a message is `<CMD>…</CMD>`, and what is between holds a command and fields,
`<NAME>value</NAME>`, some of them wrapped in others.  The parser takes a message apart with regular
expressions that ignore case; `tagLower` and `tagFold` are how Python compares two characters in
the two ways these expressions need.

A dictionary of fields keeps the order of the message, since of two fields that mean the same the
later one counts.
-/

set_option autoImplicit false

namespace Ollog

open OrderedDict

/-- A `dict[str, str]`. -/
abbrev Fields := OrderedDict String String

/-! ## Matching without case -/

/-- The lower case in which the text of a group is compared with the group. -/
def tagLower (c : Char) : Char :=
  if charRange 'A' 'Z' c then c.toLower
  -- The Kelvin sign, and the capital `I` with a dot.
  else if c = Char.ofNat 0x212A then 'k'
  else if c = Char.ofNat 0x130 then 'i'
  else c

/-- The class in which a letter of the pattern is compared with a letter of the text: the dotless
`i` and the long `s` go with the letters they are upper-cased like. -/
def tagFold (c : Char) : Char :=
  if c = Char.ofNat 0x131 then 'i' else if c = Char.ofNat 0x17F then 's' else tagLower c

/-- `[A-Z0-9_]`, ignoring case. -/
def isTagChar (c : Char) : Bool :=
  charRange 'a' 'z' (tagFold c) || charRange '0' '9' c || c == '_'

/-- Take a pattern off the front of a text, comparing characters in a class. -/
def dropPattern (fold : Char → Char) : List Char → List Char → Option (List Char)
  | [], cs => some cs
  | _ :: _, [] => none
  | p :: ps, c :: cs => if fold p = fold c then dropPattern fold ps cs else none

/-- What is before the first occurrence of a pattern, and what is behind it. -/
def splitAtFirst (fold : Char → Char) (pattern : List Char) :
    List Char → Option (List Char × List Char)
  | [] => (dropPattern fold pattern []).map fun rest ↦ ([], rest)
  | c :: cs =>
    match dropPattern fold pattern (c :: cs) with
    | some rest => some ([], rest)
    | none => (splitAtFirst fold pattern cs).map fun (before, rest) ↦ (c :: before, rest)

/-- What is before the last occurrence of a pattern. -/
def beforeLast (fold : Char → Char) (pattern : List Char) : List Char → Option (List Char)
  | [] => (dropPattern fold pattern []).map fun _ ↦ []
  | c :: cs =>
    match beforeLast fold pattern cs with
    | some before => some (c :: before)
    | none => (dropPattern fold pattern (c :: cs)).map fun _ ↦ []

/-- `</name>`. -/
def closeTag (name : List Char) : List Char := '<' :: '/' :: (name ++ ['>'])

/-- `<name>` at the front of a text: the name, and what is behind the tag. -/
def openTag : List Char → Option (List Char × List Char)
  | '<' :: cs =>
    match cs.takeWhile isTagChar, cs.dropWhile isTagChar with
    | c :: name, '>' :: rest => some (c :: name, rest)
    | _, _ => none
  | _ => none

/-! ## Tags -/

/-- `_TAG_RE.findall(text)`, with a bound on the number of steps. -/
def tagsWithin : Nat → List Char → List (List Char × List Char)
  | 0, _ => []
  | _ + 1, [] => []
  | fuel + 1, c :: cs =>
    match openTag (c :: cs) with
    | none => tagsWithin fuel cs
    | some (name, rest) =>
      match splitAtFirst tagLower (closeTag name) rest with
      | none => tagsWithin fuel cs
      | some (value, rest) => (name, value) :: tagsWithin fuel rest

/-- `_TAG_RE.findall(text)`. -/
def tags (text : List Char) : List (List Char × List Char) := tagsWithin text.length text

section

variable [UnicodeData]

/-- `_extract_ordered_leaf_tags`, with a bound on the depth. -/
def leafTagsWithin : Nat → List Char → List (String × String)
  | 0, _ => []
  | depth + 1, text => (tags text).flatMap fun (key, value) ↦
    match leafTagsWithin depth value with
    | [] => [(upper (String.ofList key), String.ofList value)]
    | nested => nested

/-- `_extract_ordered_leaf_tags`. -/
def extractOrderedLeafTags (text : List Char) : List (String × String) :=
  leafTagsWithin (text.length + 1) text

end

theorem length_of_dropPattern {fold : Char → Char} {pattern cs rest : List Char}
    (h : dropPattern fold pattern cs = some rest) : cs.length = pattern.length + rest.length := by
  induction pattern generalizing cs with
  | nil =>
    cases h
    rw [List.length_nil, Nat.zero_add]
  | cons p ps ih =>
    cases cs with
    | nil => cases h
    | cons c cs =>
      rw [dropPattern] at h
      split at h
      · rw [List.length_cons, List.length_cons, ih h]
        omega
      · cases h

theorem length_of_splitAtFirst {fold : Char → Char} {pattern cs before rest : List Char}
    (h : splitAtFirst fold pattern cs = some (before, rest)) :
    cs.length = before.length + pattern.length + rest.length := by
  induction cs generalizing before with
  | nil =>
    obtain ⟨rest', hrest, heq⟩ := Option.map_eq_some_iff.1 h
    cases heq
    simpa using length_of_dropPattern hrest
  | cons c cs ih =>
    rw [splitAtFirst] at h
    split at h
    · rename_i rest' hrest
      cases h
      simpa using length_of_dropPattern hrest
    · obtain ⟨⟨before', rest'⟩, hsplit, heq⟩ := Option.map_eq_some_iff.1 h
      cases heq
      rw [List.length_cons, List.length_cons, ih hsplit]
      omega

theorem length_of_openTag {cs name rest : List Char} (h : openTag cs = some (name, rest)) :
    rest.length < cs.length := by
  unfold openTag at h
  split at h
  · rename_i cs
    split at h
    · rename_i c name' rest' hname hrest
      cases h
      have hle := (List.dropWhile_suffix isTagChar (l := cs)).length_le
      rw [hrest, List.length_cons] at hle
      rw [List.length_cons]
      omega
    · cases h
  · cases h

/-- The search takes no more steps than the text is long. -/
theorem tagsWithin_eq {fuel : Nat} {text : List Char} (h : text.length ≤ fuel) :
    tagsWithin fuel text = tags text := by
  have hfuel : ∀ n fuel fuel' text, text.length ≤ n → n ≤ fuel → n ≤ fuel' →
      tagsWithin fuel text = tagsWithin fuel' text := by
    intro n
    induction n with
    | zero =>
      intro fuel fuel' text htext _ _
      obtain rfl := List.length_eq_zero_iff.1 (Nat.le_zero.1 htext)
      cases fuel <;> cases fuel' <;> rfl
    | succ n ih =>
      intro fuel fuel' text htext hfuel hfuel'
      obtain ⟨fuel, rfl⟩ := Nat.exists_eq_add_of_lt hfuel
      obtain ⟨fuel', rfl⟩ := Nat.exists_eq_add_of_lt hfuel'
      cases text with
      | nil => rfl
      | cons c cs =>
        rw [List.length_cons] at htext
        rw [tagsWithin, tagsWithin]
        cases hopen : openTag (c :: cs) with
        | none => exact ih _ _ _ (by omega) (by omega) (by omega)
        | some tag =>
          obtain ⟨name, rest⟩ := tag
          dsimp only
          have hrest := length_of_openTag hopen
          cases hsplit : splitAtFirst tagLower (closeTag name) rest with
          | none => exact ih _ _ _ (by omega) (by omega) (by omega)
          | some parts =>
            obtain ⟨value, rest'⟩ := parts
            have hlength := length_of_splitAtFirst hsplit
            rw [List.length_cons] at hrest
            exact congrArg _ (ih _ _ _ (by omega) (by omega) (by omega))
  exact hfuel _ _ _ text le_rfl h le_rfl

/-- A value is shorter than the text it is found in. -/
theorem length_lt_of_mem_tags {text key value : List Char} (h : (key, value) ∈ tags text) :
    value.length < text.length := by
  have hall : ∀ fuel text, (key, value) ∈ tagsWithin fuel text → value.length < text.length := by
    intro fuel
    induction fuel with
    | zero => exact fun _ h ↦ absurd h List.not_mem_nil
    | succ fuel ih =>
      intro text h
      cases text with
      | nil => exact absurd h List.not_mem_nil
      | cons c cs =>
        rw [tagsWithin] at h
        have hskip : (key, value) ∈ tagsWithin fuel cs → value.length < (c :: cs).length :=
          fun h ↦ Nat.lt_trans (ih cs h) (Nat.lt_succ_self _)
        cases hopen : openTag (c :: cs) with
        | none =>
          rw [hopen] at h
          exact hskip h
        | some tag =>
          obtain ⟨name, rest⟩ := tag
          rw [hopen] at h
          dsimp only at h
          have hrest := length_of_openTag hopen
          cases hsplit : splitAtFirst tagLower (closeTag name) rest with
          | none =>
            rw [hsplit] at h
            exact hskip h
          | some parts =>
            obtain ⟨value', rest'⟩ := parts
            rw [hsplit] at h
            have hlength := length_of_splitAtFirst hsplit
            obtain heq | h := List.mem_cons.1 h
            · cases heq
              omega
            · have := ih rest' h
              omega
  exact hall _ _ h

section

variable [UnicodeData]

/-- **The recursion of `_extract_ordered_leaf_tags`.** -/
theorem extractOrderedLeafTags_eq (text : List Char) :
    extractOrderedLeafTags text = (tags text).flatMap fun (key, value) ↦
      match extractOrderedLeafTags value with
      | [] => [(upper (String.ofList key), String.ofList value)]
      | nested => nested := by
  have hdepth : ∀ n depth text, text.length < n → n ≤ depth →
      leafTagsWithin depth text = leafTagsWithin n text := by
    intro n
    induction n with
    | zero => exact fun _ _ h _ ↦ absurd h (Nat.not_lt_zero _)
    | succ n ih =>
      intro depth text htext hdepth
      obtain ⟨depth, rfl⟩ := Nat.exists_eq_add_of_lt hdepth
      rw [leafTagsWithin, leafTagsWithin]
      refine List.flatMap_congr fun ⟨key, value⟩ hitem ↦ ?_
      have hlength := length_lt_of_mem_tags hitem
      dsimp only
      rw [ih _ value (by omega) (by omega)]
  rw [extractOrderedLeafTags, leafTagsWithin]
  refine List.flatMap_congr fun ⟨key, value⟩ hitem ↦ ?_
  have hlength := length_lt_of_mem_tags hitem
  dsimp only
  rw [extractOrderedLeafTags, hdepth (value.length + 1) text.length value (by omega) (by omega)]

/-! ## Commands -/

/-- The texts of the matches of `_CMD_RE`, with a bound on their number. -/
def cmdMatchesWithin : Nat → List Char → List (List Char)
  | 0, _ => []
  | fuel + 1, text =>
    match splitAtFirst tagFold "<CMD>".toList text with
    | none => []
    | some (before, rest) =>
      match splitAtFirst tagFold "</CMD>".toList rest with
      | none => []
      | some (body, rest) =>
        (text.drop before.length).take (body.length + 11) :: cmdMatchesWithin fuel rest

/-- `iter_cmd_messages`. -/
def iterCmdMessages (data : String) : List String :=
  match cmdMatchesWithin (data.length + 1) data.toList with
  | [] => if strip data = "" then [] else [data]
  | messages => messages.map String.ofList

/-- `_command_and_field_body`. -/
def commandAndFieldBody (message : String) : Option String × List Char :=
  match splitAtFirst tagFold "<CMD>".toList message.toList with
  | none => (none, [])
  | some (_, rest) =>
    match splitAtFirst tagFold "</CMD>".toList rest with
    | none => (none, [])
    | some (body, _) =>
      match openTag (body.dropWhile isSpace) with
      | none => (none, [])
      | some (name, _) =>
        let command := upper (String.ofList name)
        let wrapped := do
          let (_, rest) ← splitAtFirst tagFold ('<' :: (command.toList ++ ['>'])) body
          beforeLast tagFold (closeTag command.toList) rest
        (some command, wrapped.getD body)

/-- `parse_cmd`. -/
def parseCmd (message : String) : Option String × Fields :=
  match commandAndFieldBody message with
  | (none, _) => (none, [])
  | (some command, fieldBody) =>
    (some command, .ofItems ((extractOrderedLeafTags fieldBody).filterMap fun (key, value) ↦
      if upper key = command then none else some (upper key, value)))

/-! ## Values -/

/-- `_FIELD_ALIASES`, and `_normalize_field_name`. -/
def normalizeFieldName (key : String) : String :=
  match key with
  | "DATE" => "QSO_DATE"
  | "DATESTR" => "QSO_DATE"
  | "FREQUENCY" => "FREQ"
  | "RSTS" => "RST_SENT"
  | "RSTR" => "RST_RCVD"
  | "TIMEON" => "TIME_ON"
  | "TIMEONSTR" => "TIME_ON"
  | "TIME_ON_STR" => "TIME_ON"
  | key => key

/-- `re.sub(r"\D", "", value)`. -/
def digitsOf (value : String) : String := String.ofList (value.toList.filter isDecimal)

/-- `_normalize_date`. -/
def normalizeDate (value : String) : Option String :=
  if (digitsOf value).length = 8 then some (digitsOf value) else none

/-- `_normalize_time`. -/
def normalizeTime (value : String) : Option String :=
  if (digitsOf value).length = 4 then some (digitsOf value ++ "00")
  else if (digitsOf value).length = 6 then some (digitsOf value)
  else none

/-- `_normalize_band`. -/
def normalizeBand (value : Option String) : Option String :=
  match value with
  | none => none
  | some value =>
    let band := upper (strip value)
    if band = "" then none
    else if band.toList.getLast? = some 'M' then some band
    else some (band ++ "M")

/-- `_normalize_field_value`. -/
def normalizeFieldValue (key value : String) : Option String :=
  let value := strip value
  if value = "" then none
  else if key = "QSO_DATE" then some ((normalizeDate value).getD value)
  else if key = "TIME_ON" then some ((normalizeTime value).getD value)
  else some value

/-- `_comparison_value`. -/
def comparisonValue (key : String) (value : Option String) : Option String :=
  match value with
  | none => none
  | some "" => none
  | some value =>
    if key = "BAND" then normalizeBand (some value)
    else if key = "QSO_DATE" then normalizeDate value
    else if key = "TIME_ON" then normalizeTime value
    else some (upper (strip value))

/-! ## Records -/

/-- `if value: result[dest] = value`. -/
def setNonEmpty (d : Fields) (k : String) (value : Option String) : Fields :=
  match value with
  | none => d
  | some value => if value = "" then d else d.set k value

/-- `band = _normalize_band(…); if band: result["BAND"] = band`. -/
def setBand (d : Fields) (value : Option String) : Fields :=
  match normalizeBand value with
  | none => d
  | some band => d.set "BAND" band

/-- The fields `aclog_enterevent_to_adif` looks for first, and what they are called. -/
def entereventNames : List (String × String) :=
  [("CALL", "CALL"), ("MODE", "MODE"), ("QSO_DATE", "QSO_DATE"), ("TIME_ON", "TIME_ON"),
    ("COUNTRY", "COUNTRY"), ("DXCC", "DXCC"), ("CONT", "CONT"), ("FREQ", "FREQ"),
    ("RSTS", "RST_SENT"), ("RSTR", "RST_RCVD"), ("RST_SENT", "RST_SENT"), ("RST_RCVD", "RST_RCVD")]

/-- `_ENTEREVENT_SKIP_FIELDS`. -/
def entereventSkipFields : List String := ["QSOCOUNT", "MODETEST"]

/-- The fields that come out of the text boxes of ACLog, the numbered ones apart. -/
def cachedFields : List String := ["FREQ", "RST_SENT", "RST_RCVD"]

/-- `key.startswith("OTHER_")`. -/
def isOtherSlot (key : String) : Bool := "OTHER_".toList.isPrefixOf key.toList

/-- Copy a named field of an event. -/
def copyNamed (fields result : Fields) (names : String × String) : Fields :=
  match fields.get names.1 with
  | none => result
  | some value => if value = "" then result else result.set names.2 (strip value)

/-- Copy a field of an event that is not among the named ones. -/
def copyOther (result : Fields) (item : String × String) : Fields :=
  let key := upper (strip item.1)
  if key ∈ entereventSkipFields ∨ (result.get key).isSome then result
  else if key = "RSTS" ∨ key = "RSTR" then result
  else if item.2 ≠ "" ∧ isAdifName key then result.set key (strip item.2)
  else result

/-- Fill in a field from the text boxes, if it is not there. -/
def fillIn (result : Fields) (item : String × String) : Fields :=
  if (result.get item.1).isNone ∧ item.2 ≠ "" then result.set item.1 item.2 else result

/-- The items of the cache that are text boxes with a name. -/
def namedBoxes (state : Fields) : List (String × String) :=
  cachedFields.filterMap fun key ↦ (state.get key).map fun value ↦ (key, value)

/-- The items of the cache that are numbered text boxes. -/
def otherBoxes (state : Fields) : List (String × String) :=
  state.filter fun item ↦ isOtherSlot item.1

/-- `aclog_enterevent_to_adif`. -/
def aclogEntereventToAdif (fields state : Fields) : Fields :=
  let result := entereventNames.foldl (copyNamed fields) []
  let result := (namedBoxes state).foldl fillIn result
  let result := fields.foldl copyOther result
  let result := (otherBoxes state).foldl fillIn result
  setBand result (fields.get "BAND")

/-- `_FULL_RECORD_SKIP_FIELDS`. -/
def fullRecordSkipFields : List String :=
  ["COUNT", "ERROR", "INDEX", "MODETEST", "QSOCOUNT", "RECORD", "RECORDS", "RESULT", "STATUS"]

/-- One field of a full record. -/
def copyFull (result : Fields) (item : String × String) : Fields :=
  let key := upper (strip item.1)
  if item.2 = "" ∨ key ∈ fullRecordSkipFields then result
  else if !isAdifName key then result
  else setNonEmpty result (normalizeFieldName key)
    (normalizeFieldValue (normalizeFieldName key) item.2)

/-- `aclog_full_record_to_adif`. -/
def aclogFullRecordToAdif (fields : Fields) : Fields :=
  let result := fields.foldl copyFull []
  setBand result (result.get "BAND")

/-- `_FULL_RECORD_COMMANDS`. -/
def fullRecordCommands : List String := ["LIST", "LISTRESPONSE", "SEARCH", "SEARCHRESPONSE"]

/-- `_FULL_RECORD_WRAPPERS`. -/
def fullRecordWrappers : List String := ["CONTACT", "QSO", "RECORD"]

/-- `if record: records.append(record)`. -/
def appendRecord (records : List Fields) (record : Fields) : List Fields :=
  if record.isEmpty then records else records ++ [record]

/-- One field of a response without wrappers: a second call begins the next record. -/
def splitFlat (command : String) (acc : List Fields × Fields) (item : String × String) :
    List Fields × Fields :=
  let key := upper (strip item.1)
  if key = command ∨ key ∈ fullRecordSkipFields then acc
  else if normalizeFieldName key = "CALL" ∧ ((acc.2.get "CALL").getD "") ≠ "" then
    (appendRecord acc.1 (aclogFullRecordToAdif acc.2), OrderedDict.set [] key item.2)
  else (acc.1, acc.2.set key item.2)

/-- `aclog_full_records_from_message`. -/
def aclogFullRecordsFromMessage (message : String) : Option String × List Fields :=
  match commandAndFieldBody message with
  | (none, _) => (none, [])
  | (some command, fieldBody) =>
    if command ∉ fullRecordCommands then (some command, [])
    else
      match (tags fieldBody).filter fun tag ↦
        upper (strip (String.ofList tag.1)) ∈ fullRecordWrappers with
      | [] =>
        let (records, current) :=
          (extractOrderedLeafTags fieldBody).foldl (splitFlat command) ([], [])
        (some command, appendRecord records (aclogFullRecordToAdif current))
      | bodies => (some command, bodies.foldl (fun records tag ↦ appendRecord records
          (aclogFullRecordToAdif (.ofItems (extractOrderedLeafTags tag.2)))) [])

/-- `is_aclog_full_record_response`. -/
def isAclogFullRecordResponse (command : Option String) (fields : Fields) : Bool :=
  match command with
  | none => false
  | some command => command ∈ fullRecordCommands &&
      ["CALL", "QSO_DATE", "TIME_ON"].any fun key ↦
        fields.any fun item ↦ normalizeFieldName item.1 = key

/-- `merge_aclog_records`. -/
def mergeAclogRecords (base full state : Fields) : Fields :=
  let merged : Fields := base.filter fun item ↦ item.2 ≠ ""
  let merged := full.foldl (fun merged item ↦ setNonEmpty merged item.1 (some item.2)) merged
  let merged := (state.filter fun item ↦ item.1 ∈ cachedFields || isOtherSlot item.1).foldl fillIn
    merged
  setBand merged (merged.get "BAND")

/-- `aclog_records_match`. -/
def aclogRecordsMatch (base full : Fields) : Bool :=
  (["CALL", "QSO_DATE", "TIME_ON"].all fun key ↦
    let left := comparisonValue key (base.get key)
    left.getD "" ≠ "" && left = comparisonValue key (full.get key)) &&
  ["BAND", "MODE"].all fun key ↦
    let left := comparisonValue key (base.get key)
    let right := comparisonValue key (full.get key)
    left.getD "" = "" || right.getD "" = "" || left = right

/-! ## The cache of the text boxes -/

/-- `_UPDATE_CONTROL_MAP` and `_OTHER_CONTROL_RE`: the field a text box is for. -/
def controlField (control : String) : Option String :=
  match control with
  | "TXTENTRYFREQUENCY" => some "FREQ"
  | "TXTENTRYFREQ" => some "FREQ"
  | "TXTENTRYRSTS" => some "RST_SENT"
  | "TXTENTRYRSTR" => some "RST_RCVD"
  | "TXTENTRYSENT" => some "RST_SENT"
  | "TXTENTRYRECEIVED" => some "RST_RCVD"
  | "TXTENTRYOTHER1" => some "OTHER_1"
  | "TXTENTRYOTHER2" => some "OTHER_2"
  | "TXTENTRYOTHER3" => some "OTHER_3"
  | "TXTENTRYOTHER4" => some "OTHER_4"
  | "TXTENTRYOTHER5" => some "OTHER_5"
  | "TXTENTRYOTHER6" => some "OTHER_6"
  | "TXTENTRYOTHER7" => some "OTHER_7"
  | "TXTENTRYOTHER8" => some "OTHER_8"
  | _ => none

/-- `state[key] = value`, or `state.pop(key, None)` if it is empty. -/
def setOrPop (state : Fields) (key value : String) : Fields :=
  if value = "" then state.erase key else state.set key value

/-- `update_state_from_message`. -/
def updateStateFromMessage (command : Option String) (fields state : Fields) : Fields :=
  if command = some "READBMFRESPONSE" then
    ["BAND", "MODE", "FREQ"].foldl (fun state key ↦ copyNamed fields state (key, key)) state
  else if command = some "GETUSERSETTINGSRESPONSE" then
    setOrPop state "ACLOG_SETUP_CALL" (strip ((fields.get "CALL").getD ""))
  else if command = some "UPDATERESPONSE" then
    match controlField (upper (strip ((fields.get "CONTROL").getD ""))) with
    | none => state
    | some dest => setOrPop state dest (strip ((fields.get "VALUE").getD ""))
  else state

/-! ## Names -/

omit [UnicodeData] in
/-- A name in a tag holds no white space. -/
theorem isSpace_of_isTagChar {c : Char} (h : isTagChar c = true) : isSpace c = false := by
  have hrange : ∀ {a b d : Char}, charRange a b d = true → a.toNat ≤ d.toNat ∧ d.toNat ≤ b.toNat := by
    intro a b d hd
    rw [charRange, Bool.and_eq_true, decide_eq_true_eq, decide_eq_true_eq] at hd
    exact hd
  have hascii : ∀ n < 128, isSpace (Char.ofNat n) = true → n ≤ 32 := by decide +kernel
  have hplain : ∀ {d : Char}, 48 ≤ d.toNat → d.toNat ≤ 122 → isSpace d = false := by
    intro d hlow hhigh
    by_contra hspace
    have hle := hascii d.toNat (by omega)
      (by rw [Char.ofNat_toNat]; exact Bool.not_eq_false _ ▸ hspace)
    omega
  rw [isTagChar, Bool.or_eq_true, Bool.or_eq_true, beq_iff_eq] at h
  obtain (h | h) | rfl := h
  · rw [tagFold] at h
    split at h
    · rename_i hc
      rw [hc]
      decide
    split at h
    · rename_i hc
      rw [hc]
      decide
    rw [tagLower] at h
    split at h
    · rename_i hupper
      obtain ⟨hlow, hhigh⟩ := hrange hupper
      exact hplain (Nat.le_trans (by decide) hlow) (Nat.le_trans hhigh (by decide))
    split at h
    · rename_i hc
      rw [hc]
      decide
    split at h
    · rename_i hc
      rw [hc]
      decide
    · obtain ⟨hlow, hhigh⟩ := hrange h
      exact hplain (Nat.le_trans (by decide) hlow) hhigh
  · obtain ⟨hlow, hhigh⟩ := hrange h
    exact hplain hlow (Nat.le_trans hhigh (by decide))
  · decide

omit [UnicodeData] in
theorem isTagChar_of_openTag {cs name rest : List Char} (h : openTag cs = some (name, rest)) :
    ∀ c ∈ name, isTagChar c = true := by
  unfold openTag at h
  split at h
  · rename_i cs
    split at h
    · rename_i hname _
      cases h
      rw [← hname]
      exact List.all_eq_true.1 List.all_takeWhile
    · cases h
  · cases h

omit [UnicodeData] in
theorem isTagChar_of_mem_tags {text key value : List Char} (h : (key, value) ∈ tags text) :
    ∀ c ∈ key, isTagChar c = true := by
  have hall : ∀ fuel text, (key, value) ∈ tagsWithin fuel text → ∀ c ∈ key, isTagChar c = true := by
    intro fuel
    induction fuel with
    | zero => exact fun _ h ↦ absurd h List.not_mem_nil
    | succ fuel ih =>
      intro text h
      cases text with
      | nil => exact absurd h List.not_mem_nil
      | cons c cs =>
        rw [tagsWithin] at h
        split at h
        · exact ih cs h
        rename_i name rest hopen
        split at h
        · exact ih cs h
        rename_i value' rest' _
        obtain heq | h := List.mem_cons.1 h
        · cases heq
          exact isTagChar_of_openTag hopen
        · exact ih rest' h
  exact hall _ _ h

/-- A leaf is called by the upper case of a name in a tag. -/
theorem exists_name_of_mem_leafTags {text : List Char} {item : String × String}
    (h : item ∈ extractOrderedLeafTags text) :
    ∃ name : List Char, item.1 = upper (String.ofList name) ∧ ∀ c ∈ name, isTagChar c = true := by
  have hall : ∀ depth text, item ∈ leafTagsWithin depth text →
      ∃ name : List Char, item.1 = upper (String.ofList name) ∧ ∀ c ∈ name, isTagChar c = true := by
    intro depth
    induction depth with
    | zero => exact fun _ h ↦ absurd h List.not_mem_nil
    | succ depth ih =>
      intro text h
      obtain ⟨⟨key, value⟩, hmem, h⟩ := List.mem_flatMap.1 h
      dsimp only at h
      split at h
      · rw [List.mem_singleton.1 h]
        exact ⟨key, rfl, isTagChar_of_mem_tags hmem⟩
      · exact ih value h
  exact hall _ _ h

/-- **A field of a message is called by a name** that neither stripping nor upper-casing changes. -/
theorem upper_strip_of_mem_parseCmd (hlaws : UnicodeData.UpperLaws) (hspace : UnicodeData.SpaceLaw)
    {message : String} {item : String × String} (h : item ∈ (parseCmd message).2) :
    upper (strip item.1) = item.1 := by
  have hname : ∃ name : List Char, item.1 = upper (upper (String.ofList name)) ∧
      ∀ c ∈ name, isTagChar c = true := by
    rw [parseCmd] at h
    split at h
    · exact absurd h List.not_mem_nil
    · obtain ⟨⟨key, value⟩, hmem, hitem⟩ := List.mem_filterMap.1 (mem_ofItems h)
      obtain ⟨-, heq⟩ := Option.ite_none_left_eq_some.1 hitem
      obtain ⟨name, hname, hchars⟩ := exists_name_of_mem_leafTags hmem
      cases heq
      exact ⟨name, congrArg upper hname, hchars⟩
  obtain ⟨name, hname, hchars⟩ := hname
  rw [upper_eq_of_uppercase (uppercase_upper hlaws _)] at hname
  have hstrip : strip item.1 = item.1 := by
    rw [strip, stripChars_eq_self, String.ofList_toList]
    rw [hname, toList_upper, String.toList_ofList]
    intro c hc
    obtain ⟨d, hd, hc⟩ := List.mem_flatMap.1 hc
    exact hspace d (isSpace_of_isTagChar (hchars d hd)) c hc
  rw [hstrip, hname, upper_eq_of_uppercase (uppercase_upper hlaws _)]

end

end Ollog

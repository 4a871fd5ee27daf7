import Ollog.Aclog.Framing

/-!
# The two layouts of a list

ACLog lists contacts in two ways: each of them wrapped in a tag, or all of their fields one after the
other.  In the first layout a record is what is found in a wrapper, in the second one a record ends
where the next call begins.  For contacts that begin with their call, the two give the same records
(`fullRecords_of_layouts`).
-/

set_option autoImplicit false

namespace Ollog

open OrderedDict

/-! ## Contacts and layouts -/

/-- A command that a response with full records has. -/
abbrev ListCommand := {command : String // command ∈ fullRecordCommands}

/-- A tag that a contact may be wrapped in. -/
abbrev Wrapper := {wrapper : String // wrapper ∈ fullRecordWrappers}

/-- The names a field of a contact does not have. -/
def reservedNames : List String :=
  "CMD" :: (fullRecordCommands ++ fullRecordWrappers ++ fullRecordSkipFields)

/-- A field of a contact as ACLog lists it. -/
structure ListedField where
  name : String
  value : String
  isName : isAdifName name = true
  unreserved : name ∉ reservedNames
  plain : '<' ∉ value.toList

/-- The name and the value of a field. -/
def ListedField.item (field : ListedField) : String × String := (field.name, field.value)

/-- A contact as ACLog lists it. -/
structure ListedContact where
  call : ListedField
  others : List ListedField
  isCall : call.name = "CALL"
  nonBlank : strip call.value ≠ ""
  distinct : ((call :: others).map (·.name)).Nodup

/-- The fields of a contact, in order. -/
def ListedContact.fields (contact : ListedContact) : List ListedField :=
  contact.call :: contact.others

/-- The dictionary of a contact. -/
def ListedContact.dict (contact : ListedContact) : Fields := contact.fields.map (·.item)

/-- `<name>content</name>`. -/
def element (name content : String) : String := "<" ++ name ++ ">" ++ content ++ "</" ++ name ++ ">"

/-- The fields of a contact in sequence. -/
def ListedContact.layout (contact : ListedContact) : String :=
  String.join (contact.fields.map fun field ↦ element field.name field.value)

/-- A message with a command, whose tag is closed at the end or not at all. -/
def commandMessage (command : String) (closed : Bool) (body : String) : String :=
  element "CMD" (if closed then element command body else "<" ++ command ++ ">" ++ body)

/-- All fields in sequence. -/
def flatLayout (command : ListCommand) (closed : Bool) (contacts : List ListedContact) : String :=
  commandMessage command closed (String.join (contacts.map (·.layout)))

/-- Each contact in a wrapper. -/
def nestedLayout (command : ListCommand) (closed : Bool) (wrapped : List (Wrapper × ListedContact)) :
    String :=
  commandMessage command closed (String.join (wrapped.map fun item ↦
    element item.1 item.2.layout))

/-- A contact with nothing but its call. -/
example : nestedLayout ⟨"LIST", by decide⟩ true [(⟨"QSO", by decide⟩,
    { call := ⟨"CALL", "W1AW", by decide, by decide, by decide⟩
      others := []
      isCall := rfl
      nonBlank := by decide
      distinct := by decide })] =
    "<CMD><LIST><QSO><CALL>W1AW</CALL></QSO></LIST></CMD>" := by decide +kernel

/-! ## The layouts in pieces -/

/-- The pieces of a field. -/
def ListedField.pieces (field : ListedField) : List Piece :=
  [.opening field.name field.isName, .text field.value field.plain, .closing field.name field.isName]

/-- The pieces of some fields. -/
def fieldPieces (fields : List ListedField) : List Piece := fields.flatMap (·.pieces)

theorem toList_element (name content : String) : (element name content).toList =
    '<' :: (name.toList ++ '>' :: (content.toList ++ closeTag name.toList)) := by
  simp only [element, String.toList_append, closeTag, List.append_assoc]
  rfl

theorem toList_join {α : Type} (f : α → String) (items : List α) :
    (String.join (items.map f)).toList = items.flatMap fun item ↦ (f item).toList := by
  rw [String.toList_join, List.flatMap_map]

theorem toList_layout (contact : ListedContact) :
    contact.layout.toList = piecesText (fieldPieces contact.fields) := by
  rw [ListedContact.layout, toList_join, fieldPieces, piecesText, List.flatMap_assoc]
  refine List.flatMap_congr fun field _ ↦ ?_
  rw [toList_element]
  simp [ListedField.pieces, Piece.chars]

theorem ListCommand.isName (command : ListCommand) : isAdifName command = true :=
  (by decide : ∀ command ∈ fullRecordCommands, isAdifName command = true) _ command.2

theorem Wrapper.isName (wrapper : Wrapper) : isAdifName wrapper = true :=
  (by decide : ∀ wrapper ∈ fullRecordWrappers, isAdifName wrapper = true) _ wrapper.2

theorem ListCommand.reserved (command : ListCommand) : command.1 ∈ reservedNames :=
  List.mem_cons_of_mem _ (List.mem_append_left _ (List.mem_append_left _ command.2))

theorem Wrapper.reserved (wrapper : Wrapper) : wrapper.1 ∈ reservedNames :=
  List.mem_cons_of_mem _ (List.mem_append_left _ (List.mem_append_right _ wrapper.2))

/-- The pieces of a contact in a wrapper. -/
def wrappedPieces (item : Wrapper × ListedContact) : List Piece :=
  .opening item.1 item.1.isName :: fieldPieces item.2.fields ++ [.closing item.1 item.1.isName]

theorem toList_flatBody (contacts : List ListedContact) :
    (String.join (contacts.map (·.layout))).toList =
      piecesText (fieldPieces (contacts.flatMap (·.fields))) := by
  rw [toList_join, fieldPieces, List.flatMap_assoc, piecesText, List.flatMap_assoc]
  exact List.flatMap_congr fun contact _ ↦ toList_layout contact

theorem toList_nestedBody (wrapped : List (Wrapper × ListedContact)) :
    (String.join (wrapped.map fun item ↦ element item.1 item.2.layout)).toList =
      piecesText (wrapped.flatMap wrappedPieces) := by
  rw [toList_join, piecesText, List.flatMap_assoc]
  refine List.flatMap_congr fun item _ ↦ ?_
  rw [toList_element, toList_layout]
  simp [wrappedPieces, Piece.chars, piecesText]

/-- The closing tags among the pieces of some fields are those of the fields. -/
theorem closing_not_mem_fieldPieces {name : String} (hname : isAdifName name = true)
    (hreserved : name ∈ reservedNames) (fields : List ListedField) :
    Piece.closing name hname ∉ fieldPieces fields := by
  intro h
  obtain ⟨field, -, hfield⟩ := List.mem_flatMap.1 h
  simp only [ListedField.pieces, List.mem_cons, reduceCtorEq, List.not_mem_nil, or_false, false_or,
    Piece.closing.injEq] at hfield
  exact field.unreserved (hfield ▸ hreserved)

theorem closing_not_mem_wrappedPieces {name : String} (hname : isAdifName name = true)
    (hreserved : name ∈ reservedNames) (hwrapper : name ∉ fullRecordWrappers)
    (wrapped : List (Wrapper × ListedContact)) :
    Piece.closing name hname ∉ wrapped.flatMap wrappedPieces := by
  intro h
  obtain ⟨item, -, hitem⟩ := List.mem_flatMap.1 h
  rw [wrappedPieces, List.cons_append, List.mem_cons, List.mem_append, List.mem_singleton] at hitem
  obtain heq | hfield | heq := hitem
  · cases heq
  · exact closing_not_mem_fieldPieces hname hreserved _ hfield
  · cases heq
    exact hwrapper item.1.2

/-! ## What the parser finds -/

theorem beforeLast_closeTag {fold : Char → Char} (hfold : MarkupFold fold) {name : String}
    (hname : isAdifName name = true) :
    beforeLast fold (closeTag name.toList) (closeTag name.toList) = some [] := by
  have hplain : '<' ∉ '/' :: (name.toList ++ ['>']) := fun h ↦
    (List.mem_cons.1 h).elim (by decide) (lt_not_mem_name hname)
  have hnone : splitAtFirst fold (closeTag name.toList) ('/' :: (name.toList ++ ['>'])) = none := by
    have htext := splitAtFirst_text hfold hplain ('/' :: (name.toList ++ ['>'])) []
    rwa [List.append_nil] at htext
  have hdrop : dropPattern fold (closeTag name.toList) (closeTag name.toList) = some [] := by
    have happend := dropPattern_append fold (closeTag name.toList) []
    rwa [List.append_nil] at happend
  have hcons : closeTag name.toList = '<' :: '/' :: (name.toList ++ ['>']) := rfl
  rw [hcons, beforeLast, ← hcons, beforeLast_eq_none hnone, hdrop, Option.map_some]

/-- What is between `<CMD>` and `</CMD>` in a message with a command. -/
def commandPieces (command : ListCommand) (closed : Bool) (pieces : List Piece) : List Piece :=
  .opening command command.isName ::
    (pieces ++ if closed then [.closing command command.isName] else [])

theorem toList_commandMessage (command : ListCommand) (closed : Bool) {body : String}
    {pieces : List Piece} (hbody : body.toList = piecesText pieces) :
    (commandMessage command closed body).toList =
      "<CMD>".toList ++ (piecesText (commandPieces command closed pieces) ++ "</CMD>".toList) := by
  rw [commandMessage, toList_element, commandPieces]
  cases closed with
  | true =>
    simp only [if_true, toList_element, hbody, piecesText, List.flatMap_cons, List.flatMap_append,
      Piece.chars]
    simp [closeTag]
  | false =>
    simp only [Bool.false_eq_true, if_false, String.toList_append, hbody, piecesText,
      List.flatMap_cons, List.append_nil, Piece.chars]
    simp [closeTag]

theorem closing_not_mem_commandPieces {command : ListCommand} {closed : Bool} {pieces : List Piece}
    (h : Piece.closing "CMD" (by decide) ∉ pieces) :
    Piece.closing "CMD" (by decide) ∉ commandPieces command closed pieces := by
  have hname : command.1 ≠ "CMD" := fun heq ↦
    absurd (heq ▸ command.2) (by decide : "CMD" ∉ fullRecordCommands)
  intro hmem
  obtain hmem | hmem := List.mem_cons.1 hmem
  · cases hmem
  obtain hmem | hmem := List.mem_append.1 hmem
  · exact h hmem
  split at hmem
  · exact hname (Piece.closing.inj (List.mem_singleton.1 hmem)).symm
  · exact absurd hmem List.not_mem_nil

/-- The text between `<CMD>` and `</CMD>`. -/
theorem splitAtFirst_cmd {pieces : List Piece} (h : Piece.closing "CMD" (by decide) ∉ pieces) :
    splitAtFirst tagFold "</CMD>".toList (piecesText pieces ++ "</CMD>".toList) =
      some (piecesText pieces, []) := by
  have htag : "</CMD>".toList = closeTag "CMD".toList := by decide
  have hself : splitAtFirst tagFold (closeTag "CMD".toList) (closeTag "CMD".toList ++ []) =
      some ([], []) := splitAtFirst_append _ (by decide) []
  rw [List.append_nil] at hself
  rw [htag, splitAtFirst_pieces markupFold_tagFold (by decide) h, hself]
  dsimp only [Option.map_some]
  rw [List.append_nil]

section

variable [UnicodeData]

/-- **The command of a message and its fields**, whether or not the tag of the command is closed. -/
theorem commandAndFieldBody_commandMessage (command : ListCommand) (closed : Bool) {body : String}
    {pieces : List Piece} (hbody : body.toList = piecesText pieces)
    (hcmd : Piece.closing "CMD" (by decide) ∉ pieces)
    (hcommand : Piece.closing command command.isName ∉ pieces) :
    ∃ fieldBody, commandAndFieldBody (commandMessage command closed body) =
      (some command.1, fieldBody) ∧ tags fieldBody = tags (piecesText pieces) := by
  let rest := pieces ++ if closed then [.closing command command.isName] else []
  have hopenCmd : splitAtFirst tagFold "<CMD>".toList ("<CMD>".toList ++
      (piecesText (commandPieces command closed pieces) ++ "</CMD>".toList)) =
      some ([], piecesText (commandPieces command closed pieces) ++ "</CMD>".toList) :=
    splitAtFirst_append _ (by decide) _
  have hcloseCmd := splitAtFirst_cmd (@closing_not_mem_commandPieces command closed _ hcmd)
  have hfirst : piecesText (commandPieces command closed pieces) =
      (Piece.opening command command.isName).chars ++ piecesText rest := rfl
  have hspace : (piecesText (commandPieces command closed pieces)).dropWhile isSpace =
      piecesText (commandPieces command closed pieces) :=
    List.dropWhile_cons_of_neg (by decide)
  have hopenCommand : splitAtFirst tagFold ('<' :: (command.1.toList ++ ['>']))
      (piecesText (commandPieces command closed pieces)) = some ([], piecesText rest) :=
    splitAtFirst_append tagFold (List.cons_ne_nil _ _) (piecesText rest)
  have hparsed : commandAndFieldBody (commandMessage command closed body) =
      (some command.1, ((beforeLast tagFold (closeTag command.1.toList) (piecesText rest)).getD
        (piecesText (commandPieces command closed pieces)))) := by
    rw [commandAndFieldBody, toList_commandMessage command closed hbody, hopenCmd]
    dsimp only
    rw [hcloseCmd]
    dsimp only
    rw [hspace, hfirst, openTag_opening, ← hfirst]
    dsimp only
    rw [String.ofList_toList, upper_of_isAdifName command.isName, hopenCommand]
    rfl
  refine ⟨_, hparsed, ?_⟩
  cases closed with
  | true =>
    have hrest : piecesText rest = piecesText pieces ++ closeTag command.1.toList := by
      simp only [rest, if_true, piecesText_append]
      exact congrArg _ (List.append_nil _)
    rw [hrest, beforeLast_append (beforeLast_closeTag markupFold_tagFold command.isName),
      Option.getD_some, List.append_nil]
  | false =>
    have hrest : rest = pieces := List.append_nil _
    have hnone := splitAtFirst_pieces markupFold_tagFold command.isName hcommand []
    rw [List.append_nil] at hnone
    rw [hrest, beforeLast_eq_none hnone, Option.getD_none]
    have hpieces : commandPieces command false pieces = .opening command command.isName :: pieces :=
      congrArg _ (List.append_nil _)
    rw [hpieces]
    exact tags_pieces_unclosed command.isName hcommand

omit [UnicodeData] in
theorem tags_fieldPieces (fields : List ListedField) (rest : List Piece) :
    tags (piecesText (fieldPieces fields ++ rest)) =
      fields.map (fun field ↦ (field.name.toList, field.value.toList)) ++
        tags (piecesText rest) := by
  induction fields with
  | nil => rfl
  | cons field fields ih =>
    have hpieces : fieldPieces (field :: fields) ++ rest = .opening field.name field.isName ::
        [.text field.value field.plain] ++ .closing field.name field.isName ::
          (fieldPieces fields ++ rest) := by
      simp [fieldPieces, ListedField.pieces]
    have hvalue : piecesText [.text field.value field.plain] = field.value.toList :=
      List.append_nil _
    rw [hpieces, tags_pieces field.isName (by simp), ih, hvalue]
    rfl

theorem extractOrderedLeafTags_eq_nil {text : List Char} (h : '<' ∉ text) :
    extractOrderedLeafTags text = [] := by
  rw [extractOrderedLeafTags_eq, tags_eq_nil h]
  rfl

/-- What is read in a text with the tags of some fields. -/
theorem extractOrderedLeafTags_of_tags {text : List Char} {fields : List ListedField}
    (h : tags text = fields.map fun field ↦ (field.name.toList, field.value.toList)) :
    extractOrderedLeafTags text = fields.map (·.item) := by
  rw [extractOrderedLeafTags_eq, h, List.flatMap_map, ← List.flatMap_singleton' (fields.map _),
    List.flatMap_map]
  refine List.flatMap_congr fun field _ ↦ ?_
  dsimp only
  rw [extractOrderedLeafTags_eq_nil field.plain]
  dsimp only
  rw [String.ofList_toList, String.ofList_toList, upper_of_isAdifName field.isName]
  rfl

/-- **The fields of a contact are read back.** -/
theorem extractOrderedLeafTags_fieldPieces (fields : List ListedField) :
    extractOrderedLeafTags (piecesText (fieldPieces fields)) = fields.map (·.item) := by
  have htags := tags_fieldPieces fields []
  rw [List.append_nil] at htags
  exact extractOrderedLeafTags_of_tags (htags.trans (List.append_nil _))

omit [UnicodeData] in
theorem tags_wrappedPieces (wrapped : List (Wrapper × ListedContact)) :
    tags (piecesText (wrapped.flatMap wrappedPieces)) = wrapped.map fun item ↦
      (item.1.1.toList, piecesText (fieldPieces item.2.fields)) := by
  induction wrapped with
  | nil => rfl
  | cons item wrapped ih =>
    have hpieces : (item :: wrapped).flatMap wrappedPieces = .opening item.1 item.1.isName ::
        fieldPieces item.2.fields ++ .closing item.1 item.1.isName ::
          wrapped.flatMap wrappedPieces := by
      simp [wrappedPieces]
    rw [hpieces, tags_pieces item.1.isName
      (closing_not_mem_fieldPieces item.1.isName item.1.reserved _), ih]
    rfl

/-! ## Records -/

omit [UnicodeData] in
theorem ListedContact.distinct_dict (contact : ListedContact) : contact.dict.Distinct := by
  have hnames : (contact.dict.map Prod.fst).Nodup := by
    rw [ListedContact.dict, List.map_map]
    exact contact.distinct
  exact List.pairwise_map.1 hnames

/-- A field of a record does not go away again. -/
theorem isSome_get_copyFull {d : Fields} {k : String} (h : (d.get k).isSome = true)
    (item : String × String) : ((copyFull d item).get k).isSome = true := by
  have hset : ∀ j v, ((d.set j v).get k).isSome = true := by
    intro j v
    rw [get_set]
    split
    · rfl
    · exact h
  unfold copyFull setNonEmpty
  dsimp only
  split
  · exact h
  split
  · exact h
  split
  · exact h
  split
  · exact h
  · exact hset _ _

/-- **A contact is not an empty record.** -/
theorem ListedContact.isEmpty_aclogFullRecordToAdif (contact : ListedContact) :
    (aclogFullRecordToAdif contact.dict).isEmpty = false := by
  have hname : upper (strip contact.call.name) = "CALL" := by
    rw [strip_of_isAdifName contact.call.isName, upper_of_isAdifName contact.call.isName,
      contact.isCall]
  have hvalue : contact.call.value ≠ "" := fun heq ↦ contact.nonBlank (by rw [heq]; rfl)
  have hcall : copyFull [] contact.call.item = [("CALL", strip contact.call.value)] := by
    rw [copyFull, ListedField.item]
    dsimp only
    rw [hname, if_neg (not_or.2 ⟨hvalue, by decide⟩), if_neg (by decide)]
    have hkey : normalizeFieldName "CALL" = "CALL" := rfl
    rw [hkey, normalizeFieldValue, if_neg contact.nonBlank, if_neg (by decide), if_neg (by decide),
      setNonEmpty, if_neg contact.nonBlank]
    rfl
  have hfold : ∀ (items : List (String × String)) (d : Fields), (d.get "CALL").isSome = true →
      ((items.foldl copyFull d).get "CALL").isSome = true := by
    intro items
    induction items with
    | nil => exact fun _ h ↦ h
    | cons item items ih => exact fun d h ↦ ih _ (isSome_get_copyFull h item)
  have hget : ((aclogFullRecordToAdif contact.dict).get "CALL").isSome = true := by
    have hrecord := hfold (contact.others.map (·.item)) (copyFull [] contact.call.item)
      (by rw [hcall]; rfl)
    rw [aclogFullRecordToAdif, setBand]
    split
    · exact hrecord
    · rw [get_set, if_neg (by decide)]
      exact hrecord
  cases hrecord : aclogFullRecordToAdif contact.dict with
  | nil =>
    rw [hrecord] at hget
    cases hget
  | cons item items => rfl

theorem appendRecord_contact (records : List Fields) (contact : ListedContact) :
    appendRecord records (aclogFullRecordToAdif contact.dict) =
      records ++ [aclogFullRecordToAdif contact.dict] := by
  rw [appendRecord, if_neg (by rw [contact.isEmpty_aclogFullRecordToAdif]; decide)]

omit [UnicodeData] in
theorem normalizeFieldName_eq_call {key : String} : normalizeFieldName key = "CALL" ↔ key = "CALL" := by
  unfold normalizeFieldName
  split <;> simp

/-- A field that is not the call belongs to the record that has been begun. -/
theorem splitFlat_other {command : ListCommand} (records : List Fields) (current : Fields)
    {field : ListedField} (h : field.name ≠ "CALL") :
    splitFlat command (records, current) field.item =
      (records, current.set field.name field.value) := by
  have hskip : ¬ (field.name = command.1 ∨ field.name ∈ fullRecordSkipFields) := by
    rintro (heq | hmem)
    · exact field.unreserved (heq ▸ command.reserved)
    · exact field.unreserved (List.mem_cons_of_mem _ (List.mem_append_right _ hmem))
  rw [splitFlat, ListedField.item]
  dsimp only
  rw [strip_of_isAdifName field.isName, upper_of_isAdifName field.isName, if_neg hskip,
    if_neg fun hcall ↦ h (normalizeFieldName_eq_call.1 hcall.1)]

/-- A call ends the record that has been begun, if there is one. -/
theorem splitFlat_call {command : ListCommand} (records : List Fields) {current : Fields}
    (hcurrent : current = [] ∨ ∃ contact : ListedContact, current = contact.dict)
    (contact : ListedContact) : splitFlat command (records, current) contact.call.item =
      (appendRecord records (aclogFullRecordToAdif current), [contact.call.item]) := by
  have hskip : ¬ (contact.call.name = command.1 ∨ contact.call.name ∈ fullRecordSkipFields) := by
    rintro (heq | hmem)
    · exact contact.call.unreserved (heq ▸ command.reserved)
    · exact contact.call.unreserved (List.mem_cons_of_mem _ (List.mem_append_right _ hmem))
  rw [splitFlat, ListedField.item]
  dsimp only
  rw [strip_of_isAdifName contact.call.isName, upper_of_isAdifName contact.call.isName, if_neg hskip]
  obtain rfl | ⟨before, rfl⟩ := hcurrent
  · rw [if_neg fun h ↦ h.2 rfl]
    rfl
  · have hcall : before.dict.get "CALL" = some before.call.value := by
      rw [ListedContact.dict, ListedContact.fields, List.map_cons, get_cons, ListedField.item,
        if_pos before.isCall]
    have hvalue : before.call.value ≠ "" := fun heq ↦ before.nonBlank (by rw [heq]; rfl)
    rw [if_pos ⟨normalizeFieldName_eq_call.2 contact.isCall, by rwa [hcall]⟩]
    rfl

/-- **The fields of a contact in sequence** end the record before and make up a new one. -/
theorem foldl_splitFlat_contact {command : ListCommand} (records : List Fields) {current : Fields}
    (hcurrent : current = [] ∨ ∃ contact : ListedContact, current = contact.dict)
    (contact : ListedContact) :
    contact.dict.foldl (splitFlat command) (records, current) =
      (appendRecord records (aclogFullRecordToAdif current), contact.dict) := by
  have hothers : ∀ (fields : List ListedField) (records : List Fields) (current : Fields),
      (∀ field ∈ fields, field.name ≠ "CALL") →
      (fields.map (·.item)).foldl (splitFlat command) (records, current) =
        (records, (fields.map (·.item)).foldl (fun d item ↦ d.set item.1 item.2) current) := by
    intro fields
    induction fields with
    | nil => exact fun _ _ _ ↦ rfl
    | cons field fields ih =>
      intro records current hnames
      rw [List.map_cons, List.foldl_cons, List.foldl_cons,
        splitFlat_other records current (hnames field (List.mem_cons_self ..)),
        ih _ _ fun f hf ↦ hnames f (List.mem_cons_of_mem _ hf)]
      rfl
  have hnames : ∀ field ∈ contact.others, field.name ≠ "CALL" := by
    intro field hfield heq
    have hmem : contact.call.name ∈ contact.others.map (·.name) := by
      rw [contact.isCall, ← heq]
      exact List.mem_map_of_mem hfield
    exact (List.nodup_cons.1 contact.distinct).1 hmem
  have hdict : contact.dict = contact.call.item :: contact.others.map (·.item) := rfl
  have hset : (contact.others.map (·.item)).foldl (fun d item ↦ OrderedDict.set d item.1 item.2)
      [contact.call.item] = [contact.call.item] ++ contact.others.map (·.item) :=
    foldl_set_eq_append contact.distinct_dict
  rw [hdict, List.foldl_cons, splitFlat_call records hcurrent, hothers _ _ _ hnames, hset]
  rfl

/-- **All fields in sequence** make up one record for each contact. -/
theorem foldl_splitFlat_contacts {command : ListCommand} (contacts : List ListedContact)
    (records : List Fields) {current : Fields}
    (hcurrent : current = [] ∨ ∃ contact : ListedContact, current = contact.dict) :
    let (records', current') :=
      (contacts.flatMap (·.dict)).foldl (splitFlat command) (records, current)
    appendRecord records' (aclogFullRecordToAdif current') =
      appendRecord records (aclogFullRecordToAdif current) ++
        contacts.map fun contact ↦ aclogFullRecordToAdif contact.dict := by
  induction contacts generalizing records current with
  | nil => exact (List.append_nil _).symm
  | cons contact contacts ih =>
    rw [List.flatMap_cons, List.foldl_append, foldl_splitFlat_contact records hcurrent]
    refine (ih _ (.inr ⟨contact, rfl⟩)).trans ?_
    rw [appendRecord_contact, List.append_assoc]
    rfl

/-- What is found in the wrappers makes up one record for each contact. -/
theorem foldl_wrapped (wrapped : List (Wrapper × ListedContact)) (records : List Fields) :
    (wrapped.map fun item ↦ (item.1.1.toList, piecesText (fieldPieces item.2.fields))).foldl
      (fun records tag ↦ appendRecord records
        (aclogFullRecordToAdif (.ofItems (extractOrderedLeafTags tag.2)))) records =
      records ++ wrapped.map fun item ↦ aclogFullRecordToAdif item.2.dict := by
  induction wrapped generalizing records with
  | nil => exact (List.append_nil _).symm
  | cons item wrapped ih =>
    have hdict : OrderedDict.ofItems (extractOrderedLeafTags
        (piecesText (fieldPieces item.2.fields))) = item.2.dict := by
      rw [extractOrderedLeafTags_fieldPieces]
      exact item.2.distinct_dict.ofItems_eq
    rw [List.map_cons, List.foldl_cons, ih]
    dsimp only
    rw [hdict, appendRecord_contact, List.append_assoc]
    rfl

/-- **The flat layout** gives the record of every contact, in order. -/
theorem fullRecords_flatLayout (command : ListCommand) (closed : Bool)
    (contacts : List ListedContact) :
    aclogFullRecordsFromMessage (flatLayout command closed contacts) =
      (some command.1, contacts.map fun contact ↦ aclogFullRecordToAdif contact.dict) := by
  obtain ⟨fieldBody, hparsed, hbody⟩ := commandAndFieldBody_commandMessage command closed
    (toList_flatBody contacts)
    (closing_not_mem_fieldPieces (by decide) (List.mem_cons_self ..) _)
    (closing_not_mem_fieldPieces command.isName command.reserved _)
  have htags : tags fieldBody = (contacts.flatMap (·.fields)).map fun field ↦
      (field.name.toList, field.value.toList) := by
    have hpieces := tags_fieldPieces (contacts.flatMap (·.fields)) []
    rw [List.append_nil] at hpieces
    exact hbody.trans (hpieces.trans (List.append_nil _))
  have hwrappers : (tags fieldBody).filter (fun tag ↦
      upper (strip (String.ofList tag.1)) ∈ fullRecordWrappers) = [] := by
    rw [htags, List.filter_eq_nil_iff]
    intro tag htag
    obtain ⟨field, -, rfl⟩ := List.mem_map.1 htag
    dsimp only
    rw [String.ofList_toList, strip_of_isAdifName field.isName, upper_of_isAdifName field.isName,
      decide_eq_true_eq]
    exact fun h ↦ field.unreserved (Wrapper.reserved ⟨_, h⟩)
  have hleaves : extractOrderedLeafTags fieldBody = contacts.flatMap (·.dict) := by
    rw [extractOrderedLeafTags_of_tags htags, List.map_flatMap]
    rfl
  rw [flatLayout, aclogFullRecordsFromMessage, hparsed]
  dsimp only
  rw [if_neg (not_not.2 command.2), hwrappers, hleaves]
  exact congrArg _ (foldl_splitFlat_contacts contacts [] (.inl rfl))

/-- **The nested layout** gives the record of every contact, in order. -/
theorem fullRecords_nestedLayout (command : ListCommand) (closed : Bool)
    (wrapped : List (Wrapper × ListedContact)) :
    aclogFullRecordsFromMessage (nestedLayout command closed wrapped) =
      (some command.1, wrapped.map fun item ↦ aclogFullRecordToAdif item.2.dict) := by
  have hcommand : command.1 ∉ fullRecordWrappers :=
    (by decide : ∀ command ∈ fullRecordCommands, command ∉ fullRecordWrappers) _ command.2
  obtain ⟨fieldBody, hparsed, hbody⟩ := commandAndFieldBody_commandMessage command closed
    (toList_nestedBody wrapped)
    (closing_not_mem_wrappedPieces (by decide) (List.mem_cons_self ..) (by decide) _)
    (closing_not_mem_wrappedPieces command.isName command.reserved hcommand _)
  rw [tags_wrappedPieces] at hbody
  have hwrappers : (tags fieldBody).filter (fun tag ↦
      upper (strip (String.ofList tag.1)) ∈ fullRecordWrappers) = tags fieldBody := by
    rw [hbody, List.filter_eq_self]
    intro tag htag
    obtain ⟨item, -, rfl⟩ := List.mem_map.1 htag
    dsimp only
    rw [String.ofList_toList, strip_of_isAdifName item.1.isName, upper_of_isAdifName item.1.isName,
      decide_eq_true_eq]
    exact item.1.2
  rw [nestedLayout, aclogFullRecordsFromMessage, hparsed]
  dsimp only
  rw [if_neg (not_not.2 command.2), hwrappers]
  cases wrapped with
  | nil =>
    have hleaves : extractOrderedLeafTags fieldBody = [] := by
      rw [extractOrderedLeafTags_eq, hbody]
      rfl
    rw [hbody, hleaves]
    rfl
  | cons item wrapped =>
    have hfold := foldl_wrapped (item :: wrapped) []
    rw [hbody]
    exact congrArg _ hfold

/-- **A list is one message**, and its command is read off it. -/
theorem isStream_flatLayout (command : ListCommand) (closed : Bool)
    (contacts : List ListedContact) :
    IsStream (flatLayout command closed contacts).toList
      [(flatLayout command closed contacts).toList] ∧
    (parseCmd (flatLayout command closed contacts)).1 = some command.1 := by
  have hcmd := closing_not_mem_fieldPieces (by decide) (List.mem_cons_self ..)
    (contacts.flatMap (·.fields))
  have hbody := toList_flatBody contacts
  constructor
  · have hmessage : CompleteMessage (flatLayout command closed contacts).toList := by
      rw [flatLayout, toList_commandMessage command closed hbody]
      exact ⟨_, _, splitAtFirst_append _ (by decide) _,
        splitAtFirst_cmd (closing_not_mem_commandPieces hcmd)⟩
    have hnil : IsStream [] [] := .blank fun _ h ↦ absurd h List.not_mem_nil
    have hstream := @IsStream.message [] _ _ _ (fun _ h ↦ absurd h List.not_mem_nil) hmessage hnil
    rwa [List.nil_append, List.append_nil] at hstream
  · obtain ⟨fieldBody, hparsed, -⟩ := commandAndFieldBody_commandMessage command closed hbody hcmd
      (closing_not_mem_fieldPieces command.isName command.reserved _)
    rw [flatLayout, parseCmd, hparsed]

/-- **The two layouts mean the same**, with or without a tag that closes the command. -/
theorem fullRecords_of_layouts (command : ListCommand) (closed closed' : Bool)
    (wrapped : List (Wrapper × ListedContact)) :
    aclogFullRecordsFromMessage (nestedLayout command closed wrapped) =
      (some command.1, wrapped.map fun item ↦ aclogFullRecordToAdif item.2.dict) ∧
    aclogFullRecordsFromMessage (flatLayout command closed' (wrapped.map Prod.snd)) =
      (some command.1, wrapped.map fun item ↦ aclogFullRecordToAdif item.2.dict) := by
  refine ⟨fullRecords_nestedLayout command closed wrapped, ?_⟩
  rw [fullRecords_flatLayout, List.map_map]
  rfl

end

/-! ## Two contacts -/

namespace Sample

/-- A contact on the first of January 2024 at noon. -/
def listedContact (call : String) (others : List ListedField) (hplain : '<' ∉ call.toList)
    (hblank : strip call ≠ "")
    (hdistinct : (["CALL", "DATE", "TIMEON", "BAND"] ++ others.map (·.name)).Nodup) :
    ListedContact where
  call := ⟨"CALL", call, by decide, by decide, hplain⟩
  others := [⟨"DATE", "20240101", by decide, by decide, by decide⟩,
    ⟨"TIMEON", "1200", by decide, by decide, by decide⟩,
    ⟨"BAND", "20", by decide, by decide, by decide⟩] ++ others
  isCall := rfl
  nonBlank := hblank
  distinct := by simpa using hdistinct

/-- The mode of a contact. -/
def modeField : ListedField := ⟨"MODE", "SSB", by decide, by decide, by decide⟩

/-- The callsign a contact was made under. -/
def mycallField (call : String) (hplain : '<' ∉ call.toList) : ListedField :=
  ⟨"MYCALL", call, by decide, by decide, hplain⟩

/-- The callsign of the account. -/
def ownField : ListedField := mycallField "W1AW" (by decide)

/-- A contact of W1AW. -/
def ownContact : ListedContact := listedContact "K1ABC" [modeField, ownField] (by decide)
  (by decide) (by decide)

/-- A contact of someone else. -/
def foreignContact : ListedContact := listedContact "K2DEF"
  [modeField, mycallField "N0CALL" (by decide)] (by decide) (by decide) (by decide)

end Sample

section

attribute [local instance] UnicodeData.ascii

/-- Two contacts, whose dates and times go by other names in ADIF. -/
theorem fullRecords_of_two_contacts :
    let records : List Fields :=
      [[("CALL", "K1ABC"), ("QSO_DATE", "20240101"), ("TIME_ON", "120000"), ("BAND", "20M"),
        ("MODE", "SSB"), ("MYCALL", "W1AW")],
      [("CALL", "K2DEF"), ("QSO_DATE", "20240101"), ("TIME_ON", "120000"), ("BAND", "20M"),
        ("MODE", "SSB"), ("MYCALL", "N0CALL")]]
    aclogFullRecordsFromMessage (nestedLayout ⟨"LIST", by decide⟩ true
        [(⟨"QSO", by decide⟩, Sample.ownContact), (⟨"RECORD", by decide⟩, Sample.foreignContact)]) =
      (some "LIST", records) ∧
    aclogFullRecordsFromMessage (flatLayout ⟨"LIST", by decide⟩ false
        [Sample.ownContact, Sample.foreignContact]) = (some "LIST", records) := by
  intro records
  have hrecords : [Sample.ownContact, Sample.foreignContact].map
      (fun contact ↦ aclogFullRecordToAdif contact.dict) = records := by decide +kernel
  obtain ⟨hnested, hflat⟩ := fullRecords_of_layouts ⟨"LIST", by decide⟩ true false
    [(⟨"QSO", by decide⟩, Sample.ownContact), (⟨"RECORD", by decide⟩, Sample.foreignContact)]
  exact ⟨hnested.trans (congrArg (some "LIST", ·) hrecords),
    hflat.trans (congrArg (some "LIST", ·) hrecords)⟩

end

end Ollog

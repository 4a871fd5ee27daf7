import Ollog.Bson.Value

/-!
# Exceptions, and the date operations that raise them

`strptime` compiles its format to a regular expression.  For the formats used here that expression
is a sequence of fields, each with a few alternatives tried in order, each alternative a fixed
number of character classes; `matchFields` is the regular expression engine for exactly this shape,
with its backtracking.
-/

set_option autoImplicit false

namespace Ollog

/-! ## Exceptions -/

/-- The exceptions that reach the logbook's code, each with the text `str(exc)` gives. -/
inductive PyErr where
  /-- A call with arguments of the wrong kind, or with one keyword twice. -/
  | typeError (msg : String)
  | valueError (msg : String)
  | keyError (key : String)
  | attributeError (msg : String)
  /-- A date outside the years 1 to 9999, or an integer BSON cannot hold. -/
  | overflowError (msg : String)
  | runtimeError (msg : String)
  /-- `bson.errors.InvalidDocument`. -/
  | invalidDocument (msg : String)
  /-- `pymongo.errors.InvalidName`. -/
  | invalidName (msg : String)
  /-- `pymongo.errors.BulkWriteError`. -/
  | bulkWriteError (msg : String)
  /-- `pymongo.errors.DuplicateKeyError`, naming the index that is violated. -/
  | duplicateKey (msg : String)
  /-- `pymongo.errors.WriteError`: the server refused an update or an insert. -/
  | writeError (msg : String)
  /-- FastAPI's `ResponseValidationError`, by the first field that is at fault. -/
  | responseValidationError (field : String)
  /-- FastAPI's `HTTPException`. -/
  | http (status : Nat) (detail : Value)
  deriving DecidableEq, Repr

/-- `str(exc)`. -/
def PyErr.str [UnicodeData] : PyErr → String
  | typeError m | valueError m | attributeError m | overflowError m | runtimeError m
  | invalidDocument m | invalidName m | bulkWriteError m | duplicateKey m | writeError m
  | responseValidationError m => m
  | keyError k => reprText k
  | http status detail => toString status ++ ": " ++ detail.pyStr

/-- `type(value).__name__`. -/
def typeName : Value → String
  | .null => "NoneType"
  | .bool _ => "bool"
  | .int _ => "int"
  | .float _ => "float"
  | .str _ => "str"
  | .oid _ => "ObjectId"
  | .datetime _ => "datetime"
  | .list _ => "list"
  | .dict _ => "dict"
  | .dbRef .. => "DBRef"

/-! ## Dates -/

/-- `dt + timedelta(microseconds=delta)`. -/
def DateTime.add (dt : DateTime) (delta : Int) : Except PyErr DateTime :=
  if 0 ≤ dt.wall + delta ∧ dt.wall + delta < maxWall then .ok { dt with wall := dt.wall + delta }
  else .error (.overflowError "date value out of range")

/-! ## `strptime` -/

/-- One field of a format: the alternatives of its regular expression, in the order in which they
are tried, each a list of character classes. -/
abbrev Field := List (List (Char → Bool))

/-- Match one alternative: the characters it takes and the ones it leaves. -/
def matchClasses : List (Char → Bool) → List Char → Option (List Char × List Char)
  | [], cs => some ([], cs)
  | _ :: _, [] => none
  | p :: ps, c :: cs =>
    if p c then (matchClasses ps cs).map fun (taken, rest) ↦ (c :: taken, rest) else none

/-- Match a sequence of fields at the beginning of a text.  The first combination of alternatives
that matches, in the order of the regular expression, is the one that counts. -/
def matchFields : List Field → List Char → Option (List (List Char) × List Char)
  | [], cs => some ([], cs)
  | f :: fs, cs => f.findSome? fun alt ↦
    match matchClasses alt cs with
    | none => none
    | some (taken, rest) => (matchFields fs rest).map fun (texts, rest) ↦ (taken :: texts, rest)

section Strptime

variable [UnicodeData]

/-- `\d` in a regular expression on text. -/
def isDecimal (c : Char) : Bool := (UnicodeData.decimal c).isSome

/-- `%Y`: `\d\d\d\d`. -/
def fieldY : Field := [[isDecimal, isDecimal, isDecimal, isDecimal]]

/-- `%m`: `1[0-2]|0[1-9]|[1-9]`. -/
def fieldMonth : Field :=
  [[charRange '1' '1', charRange '0' '2'], [charRange '0' '0', charRange '1' '9'],
    [charRange '1' '9']]

/-- `%d`: `3[0-1]|[1-2]\d|0[1-9]|[1-9]| [1-9]`. -/
def fieldDay : Field :=
  [[charRange '3' '3', charRange '0' '1'], [charRange '1' '2', isDecimal],
    [charRange '0' '0', charRange '1' '9'], [charRange '1' '9'],
    [charRange ' ' ' ', charRange '1' '9']]

/-- `%H`: `2[0-3]|[0-1]\d|\d`. -/
def fieldHour : Field :=
  [[charRange '2' '2', charRange '0' '3'], [charRange '0' '1', isDecimal], [isDecimal]]

/-- `%M`: `[0-5]\d|\d`. -/
def fieldMinute : Field := [[charRange '0' '5', isDecimal], [isDecimal]]

/-- `%S`: `6[0-1]|[0-5]\d|\d`. -/
def fieldSecond : Field :=
  [[charRange '6' '6', charRange '0' '1'], [charRange '0' '5', isDecimal], [isDecimal]]

/-- `int` of the text of a field, which is made of digits and perhaps a leading space. -/
def fieldValue (cs : List Char) : Nat :=
  cs.foldl (fun n c ↦ match UnicodeData.decimal c with | some d => n * 10 + d | none => n) 0

/-- The field values of `datetime.strptime(text, format)`, before a date is made of them. -/
def strptimeFields (fields : List Field) (format text : String) : Except PyErr (List Nat) :=
  match matchFields fields text.toList with
  | none => .error (.valueError
      ("time data " ++ reprText text ++ " does not match format " ++ reprText format))
  | some (texts, []) => .ok (texts.map fieldValue)
  | some (_, rest) => .error (.valueError ("unconverted data remains: " ++ String.ofList rest))

/-- `datetime.strptime(text, "%Y%m%d").date()`, as a day number. -/
def strptimeDate (text : String) : Except PyErr Nat := do
  match ← strptimeFields [fieldY, fieldMonth, fieldDay] "%Y%m%d" text with
  | [y, m, d] =>
    if y = 0 then .error (.valueError "year 0 is out of range")
    else if d = 0 ∨ daysInMonth y m < d then .error (.valueError "day is out of range for month")
    else .ok (dayNumber y m d)
  | _ => .error (.valueError "unreachable")

/-- `datetime.strptime(text, "%H%M").time()`, in seconds. -/
def strptimeHM (text : String) : Except PyErr Nat := do
  match ← strptimeFields [fieldHour, fieldMinute] "%H%M" text with
  | [h, m] => .ok (h * 3600 + m * 60)
  | _ => .error (.valueError "unreachable")

/-- `datetime.strptime(text, "%H%M%S").time()`, in seconds. -/
def strptimeHMS (text : String) : Except PyErr Nat := do
  match ← strptimeFields [fieldHour, fieldMinute, fieldSecond] "%H%M%S" text with
  | [h, m, s] =>
    if 59 < s then .error (.valueError "second must be in 0..59")
    else .ok (h * 3600 + m * 60 + s)
  | _ => .error (.valueError "unreachable")

end Strptime

end Ollog

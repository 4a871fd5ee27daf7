import Ollog.Python.Utf8
import Std.Data.ExtTreeMap

/-!
# The ADIF parser

`parse_adi` moves a cursor through the text.  A round looks for the next tag, acts on it and sets
the cursor behind it, and behind its value if it is a data tag; the loop ends when there is no
further tag.  Here the cursor is the text that is left, `parseTag` is one round and `parse` the
loop.  Every round consumes something (`length_lt_of_parseTag`), so the loop ends, and
`parse_eq` is the equation everything else is proved from.
-/

set_option autoImplicit false

namespace Ollog

/-- A QSO record: upper-case field names and their values. -/
abbrev Record := Std.ExtTreeMap String String

/-- A per-record error. -/
structure ParseError where
  recordIndex : Nat
  error : String
  deriving DecidableEq, Repr

/-- The local variables of `parse_adi`, apart from the cursor. -/
structure ParseState where
  inHeader : Bool
  records : List Record := []
  errors : List ParseError := []
  currentRecord : Record := ∅
  recordIndex : Nat := 0

/-- `raw[:n]`, where a negative `n` counts from the end. -/
def takeBytes (n : Int) (raw : List UInt8) : List UInt8 :=
  if 0 ≤ n then raw.take n.toNat else raw.take (raw.length - n.natAbs)

section Parse

variable [UnicodeData]

/-- The effect of a data tag, given the text behind the tag. -/
def parseData (s : ParseState) (tag name length rest : List Char) : ParseState × List Char :=
  match intOfText length with
  | none =>
    (if s.inHeader then s
      else { s with errors := s.errors ++ [⟨s.recordIndex,
        "Invalid byte length in tag: <" ++ String.ofList tag ++ ">"⟩] }, rest)
  | some byteLength =>
    let value := decodeUtf8 (takeBytes byteLength (encodeUtf8 rest))
    (if s.inHeader then s
      else { s with
        currentRecord :=
          s.currentRecord.insert (String.ofList (upperChars name)) (String.ofList value) },
      rest.drop value.length)

/-- The effect of a tag, given what stands between `<` and `>` and the text behind it. -/
def handleTag (s : ParseState) (tag rest : List Char) : ParseState × List Char :=
  if upperChars tag = "EOH".toList then ({ s with inHeader := false }, rest)
  else if upperChars tag = "EOR".toList then
    (if !s.inHeader && !s.currentRecord.isEmpty then
      { s with
        records := s.records ++ [s.currentRecord]
        currentRecord := ∅
        recordIndex := s.recordIndex + 1 }
    else { s with recordIndex := s.recordIndex + 1 }, rest)
  else match splitChars ':' tag with
    | name :: length :: _ => parseData s tag name length rest
    | _ => (s, rest)

/-- One round of the loop; `none` when there is no further tag. -/
def parseTag (s : ParseState) (text : List Char) : Option (ParseState × List Char) :=
  match text.dropWhile (· != '<') with
  | [] => none
  | _ :: afterLt =>
    match afterLt.dropWhile (· != '>') with
    | [] => none
    | _ :: rest => some (handleTag s (afterLt.takeWhile (· != '>')) rest)

/-- At most `fuel` rounds of the loop. -/
def parseLoop : Nat → ParseState → List Char → ParseState
  | 0, s, _ => s
  | fuel + 1, s, text =>
    match parseTag s text with
    | none => s
    | some (s', rest) => parseLoop fuel s' rest

/-- The loop of `parse_adi`. -/
def parse (s : ParseState) (text : List Char) : ParseState := parseLoop text.length s text

/-- `parse_adi`. -/
def parseAdi (text : List Char) : List Record × List ParseError :=
  let final := parse { inHeader := decide ("<EOH>".toList <:+: upperChars text) } text
  (final.records, final.errors)

/-! ## The loop ends -/

theorem length_parseData_le (s : ParseState) (tag name length rest : List Char) :
    (parseData s tag name length rest).2.length ≤ rest.length := by
  rw [parseData]
  split
  · exact Nat.le_refl _
  · simp only [List.length_drop]
    exact Nat.sub_le _ _

theorem length_handleTag_le (s : ParseState) (tag rest : List Char) :
    (handleTag s tag rest).2.length ≤ rest.length := by
  rw [handleTag]
  split
  · exact Nat.le_refl _
  split
  · exact Nat.le_refl _
  split
  · exact length_parseData_le ..
  · exact Nat.le_refl _

/-- A round consumes at least a `<` and a `>`. -/
theorem length_lt_of_parseTag {s s' : ParseState} {text rest : List Char}
    (h : parseTag s text = some (s', rest)) : rest.length < text.length := by
  rw [parseTag] at h
  split at h
  · cases h
  rename_i c afterLt hlt
  split at h
  · cases h
  rename_i d rest' hgt
  have hrest := length_handleTag_le s (afterLt.takeWhile (· != '>')) rest'
  rw [Option.some.inj h] at hrest
  have h₁ := (List.dropWhile_suffix (l := text) (· != '<')).length_le
  have h₂ := (List.dropWhile_suffix (l := afterLt) (· != '>')).length_le
  rw [hlt] at h₁
  rw [hgt] at h₂
  simp only [List.length_cons] at h₁ h₂ hrest
  omega

theorem parseLoop_nil (fuel : Nat) (s : ParseState) : parseLoop fuel s [] = s := by
  cases fuel <;> rfl

/-- As many rounds as there are characters are enough. -/
theorem parseLoop_congr {m n : Nat} {s : ParseState} {text : List Char} (hm : text.length ≤ m)
    (hn : text.length ≤ n) : parseLoop m s text = parseLoop n s text := by
  induction m generalizing n s text with
  | zero =>
    rw [List.length_eq_zero_iff.1 (Nat.le_zero.1 hm), parseLoop_nil, parseLoop_nil]
  | succ m ih =>
    cases n with
    | zero => rw [List.length_eq_zero_iff.1 (Nat.le_zero.1 hn), parseLoop_nil, parseLoop_nil]
    | succ n =>
      rw [parseLoop, parseLoop]
      split
      · rfl
      · rename_i s' rest htag
        have hlt := length_lt_of_parseTag htag
        exact ih (by omega) (by omega)

/-- **The loop, round by round.** -/
theorem parse_eq (s : ParseState) (text : List Char) :
    parse s text = match parseTag s text with
      | none => s
      | some (s', rest) => parse s' rest := by
  rw [parse, parseLoop_congr (Nat.le_refl _) (Nat.le_succ _), parseLoop]
  split
  · rfl
  · rename_i s' rest htag
    exact parseLoop_congr (Nat.le_of_lt (length_lt_of_parseTag htag)) (Nat.le_refl _)

/-! ## What the loop keeps -/

/-- What every tag keeps holds after the loop. -/
theorem parse_invariant {I : ParseState → Prop}
    (hstep : ∀ s tag rest, '>' ∉ tag → I s → I (handleTag s tag rest).1) {s : ParseState} (h : I s)
    (text : List Char) : I (parse s text) := by
  have hloop : ∀ fuel s text, I s → I (parseLoop fuel s text) := by
    intro fuel
    induction fuel with
    | zero => exact fun _ _ h ↦ h
    | succ fuel ih =>
      intro s text h
      rw [parseLoop]
      split
      · exact h
      rename_i s' rest htag
      refine ih s' rest ?_
      rw [parseTag] at htag
      split at htag
      · cases htag
      split at htag
      · cases htag
      rw [show s' = _ from (congrArg Prod.fst (Option.some.inj htag)).symm]
      refine hstep _ _ _ (fun hmem ↦ ?_) h
      have hne := List.all_eq_true.1 List.all_takeWhile '>' hmem
      rw [bne_self_eq_false] at hne
      cases hne
  exact hloop text.length s text h

/-- **The field names of a parsed record** are upper-cased texts that can stand in a tag. -/
theorem names_of_mem_parseAdi {P : String → Prop}
    (hP : ∀ name, '>' ∉ name → ':' ∉ name → P (String.ofList (upperChars name)))
    {text : List Char} {record : Record} (h : record ∈ (parseAdi text).1) : ∀ k ∈ record, P k := by
  have hempty : ∀ k ∈ (∅ : Record), P k := fun k hk ↦ absurd hk Std.ExtTreeMap.not_mem_empty
  refine (parse_invariant (I := fun s ↦ (∀ k ∈ s.currentRecord, P k) ∧
    ∀ record ∈ s.records, ∀ k ∈ record, P k) (fun s tag rest htag hs ↦ ?_)
    ⟨hempty, fun _ h ↦ absurd h List.not_mem_nil⟩ text).2 record h
  rw [handleTag]
  split
  · exact hs
  split
  · dsimp only
    split
    · refine ⟨hempty, fun record hrecord ↦ ?_⟩
      rcases List.mem_append.1 hrecord with hrecord | hrecord
      · exact hs.2 record hrecord
      · exact List.mem_singleton.1 hrecord ▸ hs.1
    · exact hs
  split
  · rename_i name length _ hsplit
    have hname : name ∈ splitChars ':' tag := hsplit ▸ List.mem_cons_self ..
    rw [parseData]
    split <;> dsimp only <;> split
    · exact hs
    · exact hs
    · exact hs
    · refine ⟨fun k hk ↦ ?_, hs.2⟩
      rw [Std.ExtTreeMap.mem_insert, Std.compare_eq_iff_eq] at hk
      obtain rfl | hk := hk
      · exact hP name (fun hgt ↦ htag (mem_of_mem_splitChars hname hgt))
          (not_mem_of_mem_splitChars hname)
      · exact hs.1 k hk
  · exact hs

/-- A record whose field names have no lower-case letters of ASCII. -/
def UpperNamed (record : Record) : Prop := ∀ k ∈ record, ∀ c ∈ k.toList, c.isLower = false

/-- **The parser upper-cases every field name.** -/
theorem upperNamed_of_mem_parseAdi {text : List Char} {record : Record}
    (h : record ∈ (parseAdi text).1) : UpperNamed record :=
  names_of_mem_parseAdi (fun name _ _ c hc ↦ by
    rw [String.toList_ofList] at hc
    exact isLower_of_mem_upperChars hc) h

end Parse

end Ollog

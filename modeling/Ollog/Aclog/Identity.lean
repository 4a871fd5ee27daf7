import Ollog.Lib.OrderedDict
import Ollog.Qso.CustomFields

/-!
# Whose contact it is

Several operators may point a bridge at one ACLog computer.  What keeps their logs apart is the
identity of a contact: the station it names, or else the operator.  The first of them that is not
blank decides, and it is compared with what the user is called.

`MYCALL`, `STATION_CALLSIGN` and the call of the setup are compared with the callsign of the user and
that of the station, `OPERATOR` with the callsign of the user alone.  `CALL` is the station that was
worked, and nobody looks at it.
-/

set_option autoImplicit false

namespace Ollog

open OrderedDict

/-- What `str` makes of a value. -/
class PyObject (Obj : Type) where
  str : Obj → String

instance : PyObject String := ⟨id⟩

/-- `ACLOG_STATION_IDENTITY_FIELDS`. -/
def aclogStationIdentityFields : List String := ["MYCALL", "STATION_CALLSIGN"]

/-- `ACLOG_OPERATOR_IDENTITY_FIELDS`. -/
def aclogOperatorIdentityFields : List String := ["OPERATOR"]

/-- `ACLOG_SETUP_CALL_FIELD`. -/
def aclogSetupCallField : String := "ACLOG_SETUP_CALL"

inductive IdentityDisposition where
  | matched
  | unmatched
  | missing
  deriving DecidableEq, Repr

/-- `ACLogOperatorIdentityResult`. -/
structure ACLogOperatorIdentityResult where
  disposition : IdentityDisposition
  expected : String
  field : Option String := none
  value : Option String := none
  deriving DecidableEq, Repr

/-- `ACLogOperatorIdentityResult.matched`. -/
def ACLogOperatorIdentityResult.matched (result : ACLogOperatorIdentityResult) : Bool :=
  result.disposition = .matched

/-- The argument `user_or_callsign`. -/
inductive UserOrCallsign where
  | user (user : User)
  | callsign (callsign : String)

/-- `user_or_callsign.callsign`, or the callsign itself. -/
def UserOrCallsign.ownCallsign : UserOrCallsign → String
  | .user u => u.callsign
  | .callsign s => s

/-- `user_or_callsign.station_callsign`, which a callsign does not have. -/
def UserOrCallsign.stationCallsign : UserOrCallsign → Option String
  | .user u => u.stationCallsign
  | .callsign _ => none

section

variable [UnicodeData] {Obj : Type} [PyObject Obj]

/-- `normalize_aclog_operator_identity`. -/
def normalizeAclogOperatorIdentity (value : Option Obj) : Option String :=
  let normalized := match value with
    | some value => upper (strip (PyObject.str value))
    | none => ""
  if normalized = "" then none else some normalized

/-- `_expected_operator_callsign`. -/
def expectedOperatorCallsign (userOrCallsign : UserOrCallsign) : String :=
  (normalizeAclogOperatorIdentity (some userOrCallsign.ownCallsign)).getD ""

/-- `_expected_station_callsigns`; a set, as the list of its elements. -/
def expectedStationCallsigns (userOrCallsign : UserOrCallsign) : List String :=
  let expected := expectedOperatorCallsign userOrCallsign ::
    (normalizeAclogOperatorIdentity userOrCallsign.stationCallsign).toList
  (expected.filter (· ≠ "")).eraseDups

/-- `_station_identity_candidates`. -/
def stationIdentityCandidates (record : OrderedDict String Obj) (setupStationCall : Option Obj) :
    List (String × Option Obj) :=
  (aclogStationIdentityFields.map fun field ↦ (field, record.get field)) ++
    [(aclogSetupCallField, setupStationCall)]

/-- The candidates for the operator. -/
def operatorIdentityCandidates (record : OrderedDict String Obj) : List (String × Option Obj) :=
  aclogOperatorIdentityFields.map fun field ↦ (field, record.get field)

/-- The first candidate that is not blank, as both loops look for it. -/
def firstIdentity (candidates : List (String × Option Obj)) : Option (String × String) :=
  candidates.findSome? fun candidate ↦
    (normalizeAclogOperatorIdentity candidate.2).map (candidate.1, ·)

/-- `match_aclog_operator_identity`. -/
def matchAclogOperatorIdentity (record : OrderedDict String Obj) (userOrCallsign : UserOrCallsign)
    (setupStationCall : Option Obj) : ACLogOperatorIdentityResult :=
  let expectedOperator := expectedOperatorCallsign userOrCallsign
  let expectedStationCalls := expectedStationCallsigns userOrCallsign
  match firstIdentity (stationIdentityCandidates record setupStationCall) with
  | some (field, value) => {
      disposition := if value ∈ expectedStationCalls then .matched else .unmatched
      expected := "/".intercalate (expectedStationCalls.mergeSort fun a b ↦ decide (a ≤ b))
      field := some field
      value := some value }
  | none =>
    match firstIdentity (operatorIdentityCandidates record) with
    | some (field, value) => {
        disposition := if value = expectedOperator then .matched else .unmatched
        expected := expectedOperator
        field := some field
        value := some value }
    | none => { disposition := .missing, expected := expectedOperator }

/-- What a user is called: the callsigns of the user and of the station, unless they are blank. -/
def UserOrCallsign.GoesBy (userOrCallsign : UserOrCallsign) (value : String) : Prop :=
  normalizeAclogOperatorIdentity (some userOrCallsign.ownCallsign) = some value ∨
    normalizeAclogOperatorIdentity userOrCallsign.stationCallsign = some value

/-! ## What is compared -/

variable {record record' : OrderedDict String Obj} {who who' : UserOrCallsign}
  {setupStationCall value : Option Obj} {v : String}

theorem normalize_ne_blank (h : normalizeAclogOperatorIdentity value = some v) : v ≠ "" := by
  unfold normalizeAclogOperatorIdentity at h
  dsimp only at h
  split_ifs at h with hblank
  exact Option.some.inj h ▸ hblank

theorem eq_expectedOperatorCallsign_iff (hv : v ≠ "") : v = expectedOperatorCallsign who ↔
    normalizeAclogOperatorIdentity (some who.ownCallsign) = some v := by
  rw [expectedOperatorCallsign]
  cases normalizeAclogOperatorIdentity (some who.ownCallsign) with
  | none => exact ⟨fun h ↦ absurd h hv, fun h ↦ nomatch h⟩
  | some w => exact ⟨fun h ↦ congrArg some h.symm, fun h ↦ (Option.some.inj h).symm⟩

/-- A station is expected if the user goes by its callsign. -/
theorem mem_expectedStationCallsigns_iff : v ∈ expectedStationCallsigns who ↔ who.GoesBy v := by
  rw [expectedStationCallsigns, List.mem_eraseDups, List.mem_filter, List.mem_cons,
    Option.mem_toList, decide_eq_true_iff, UserOrCallsign.GoesBy]
  constructor
  · rintro ⟨h | h, hv⟩
    · exact .inl ((eq_expectedOperatorCallsign_iff hv).1 h)
    · exact .inr h
  · rintro (h | h)
    · have hv := normalize_ne_blank h
      exact ⟨.inl ((eq_expectedOperatorCallsign_iff hv).2 h), hv⟩
    · exact ⟨.inr h, normalize_ne_blank h⟩

theorem normalize_of_firstIdentity {candidates : List (String × Option Obj)} {field : String}
    (h : firstIdentity candidates = some (field, v)) :
    ∃ candidate ∈ candidates, normalizeAclogOperatorIdentity candidate.2 = some v := by
  obtain ⟨candidate, hmem, hsome⟩ := List.exists_of_findSome?_eq_some h
  obtain ⟨w, hw, heq⟩ := Option.map_eq_some_iff.1 hsome
  cases heq
  exact ⟨candidate, hmem, hw⟩

/-- A contact that matches has a name that the user goes by, and which it is does not depend on the
user. -/
theorem goesBy_of_matched (h : (matchAclogOperatorIdentity record who setupStationCall).matched) :
    ∃ field v, (firstIdentity (stationIdentityCandidates record setupStationCall)).or
      (firstIdentity (operatorIdentityCandidates record)) = some (field, v) ∧ who.GoesBy v := by
  rw [ACLogOperatorIdentityResult.matched, decide_eq_true_iff, matchAclogOperatorIdentity] at h
  split at h
  · rename_i field v hfirst
    refine ⟨field, v, by rw [hfirst, Option.some_or], ?_⟩
    by_contra hno
    rw [← mem_expectedStationCallsigns_iff] at hno
    simp only [if_neg hno, reduceCtorEq] at h
  · rename_i hnone
    split at h
    · rename_i field v hfirst
      refine ⟨field, v, by rw [hnone, hfirst, Option.none_or], .inl ?_⟩
      obtain ⟨candidate, -, hvalue⟩ := normalize_of_firstIdentity hfirst
      rw [← eq_expectedOperatorCallsign_iff (normalize_ne_blank hvalue)]
      by_contra hno
      simp only [if_neg hno, reduceCtorEq] at h
    · simp only [reduceCtorEq] at h

/-! ## What decides -/

omit [UnicodeData] [PyObject Obj] in
theorem stationIdentityCandidates_congr
    (h : ∀ field ∈ aclogStationIdentityFields, record.get field = record'.get field) :
    stationIdentityCandidates record setupStationCall =
      stationIdentityCandidates record' setupStationCall := by
  rw [stationIdentityCandidates, stationIdentityCandidates,
    List.map_congr_left fun field hfield ↦ by rw [h field hfield]]

omit [UnicodeData] [PyObject Obj] in
theorem operatorIdentityCandidates_congr
    (h : ∀ field ∈ aclogOperatorIdentityFields, record.get field = record'.get field) :
    operatorIdentityCandidates record = operatorIdentityCandidates record' := by
  rw [operatorIdentityCandidates, operatorIdentityCandidates,
    List.map_congr_left fun field hfield ↦ by rw [h field hfield]]

theorem isSome_firstIdentity {candidates : List (String × Option Obj)}
    (h : ∃ candidate ∈ candidates, (normalizeAclogOperatorIdentity candidate.2).isSome = true) :
    (firstIdentity candidates).isSome = true := by
  obtain ⟨candidate, hmem, hsome⟩ := h
  rw [firstIdentity, List.findSome?_isSome_iff]
  exact ⟨candidate, hmem, by rw [Option.isSome_map, hsome]⟩

/-- **A contact belongs to at most one operator.**  Two users who go by different names do not both
match it; only the names of its station and of its operator and the call of the setup count; and
where there is a station, the operator does not count. -/
theorem matchAclogOperatorIdentity_exclusive (record record' : OrderedDict String Obj)
    (setupStationCall : Option Obj) (who who' : UserOrCallsign) :
    ((∀ v, ¬ (who.GoesBy v ∧ who'.GoesBy v)) →
      ¬ ((matchAclogOperatorIdentity record who setupStationCall).matched ∧
        (matchAclogOperatorIdentity record who' setupStationCall).matched)) ∧
    ((∀ field ∈ aclogStationIdentityFields ++ aclogOperatorIdentityFields,
        record.get field = record'.get field) →
      matchAclogOperatorIdentity record who setupStationCall =
        matchAclogOperatorIdentity record' who setupStationCall) ∧
    ((∃ candidate ∈ stationIdentityCandidates record setupStationCall,
        (normalizeAclogOperatorIdentity candidate.2).isSome = true) →
      (∀ field ∈ aclogStationIdentityFields, record.get field = record'.get field) →
      matchAclogOperatorIdentity record who setupStationCall =
        matchAclogOperatorIdentity record' who setupStationCall) := by
  refine ⟨fun hdisjoint ⟨h, h'⟩ ↦ ?_, fun hagree ↦ ?_, fun hstation hagree ↦ ?_⟩
  · obtain ⟨field, v, hfirst, hgoes⟩ := goesBy_of_matched h
    obtain ⟨field', v', hfirst', hgoes'⟩ := goesBy_of_matched h'
    cases hfirst.symm.trans hfirst'
    exact hdisjoint v ⟨hgoes, hgoes'⟩
  · rw [List.forall_mem_append] at hagree
    rw [matchAclogOperatorIdentity, matchAclogOperatorIdentity,
      stationIdentityCandidates_congr hagree.1, operatorIdentityCandidates_congr hagree.2]
  · obtain ⟨identity, hidentity⟩ := Option.isSome_iff_exists.1 (isSome_firstIdentity hstation)
    have hidentity' := hidentity
    rw [stationIdentityCandidates_congr hagree] at hidentity'
    rw [matchAclogOperatorIdentity, matchAclogOperatorIdentity, hidentity, hidentity']

end

/-! ## One computer, two operators -/

section

attribute [local instance] UnicodeData.ascii

/-- A contact of a station. -/
def stationContact : OrderedDict String String := [("CALL", "K1ABC"), ("MYCALL", " w1aw ")]

theorem matchAclogOperatorIdentity_stationContact :
    (matchAclogOperatorIdentity stationContact (.callsign "W1AW") none).matched = true ∧
      ¬ ((matchAclogOperatorIdentity stationContact (.callsign "W1AW") none).matched ∧
        (matchAclogOperatorIdentity stationContact (.callsign "K1ABC") none).matched) ∧
      matchAclogOperatorIdentity stationContact (.callsign "K1ABC") none =
        matchAclogOperatorIdentity (stationContact.set "CALL" "W1AW") (.callsign "K1ABC") none ∧
      matchAclogOperatorIdentity stationContact (.callsign "K1ABC") none =
        matchAclogOperatorIdentity (stationContact.set "OPERATOR" "K1ABC") (.callsign "K1ABC")
          none := by
  refine ⟨by decide +kernel, ?_, ?_, ?_⟩
  · refine (matchAclogOperatorIdentity_exclusive stationContact stationContact none
      (.callsign "W1AW") (.callsign "K1ABC")).1 ?_
    rintro v ⟨hv | hv, hv' | hv'⟩
    · exact absurd (hv.trans hv'.symm) (show ¬ normalizeAclogOperatorIdentity (some "W1AW") =
        normalizeAclogOperatorIdentity (some "K1ABC") by decide +kernel)
    · exact nomatch hv'
    · exact nomatch hv
    · exact nomatch hv'
  · exact (matchAclogOperatorIdentity_exclusive stationContact
      (stationContact.set "CALL" "W1AW") none (.callsign "K1ABC") (.callsign "W1AW")).2.1
        (by decide)
  · exact (matchAclogOperatorIdentity_exclusive stationContact
      (stationContact.set "OPERATOR" "K1ABC") none (.callsign "K1ABC") (.callsign "W1AW")).2.2
        (by decide +kernel) (by decide)

end

end Ollog

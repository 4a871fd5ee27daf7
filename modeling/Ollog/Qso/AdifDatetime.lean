import Ollog.Python.Calendar
import Ollog.Qso.Service

/-!
# The dates and times of ADIF

A date of ADIF is eight digits and a time is four or six.  `parseAdifDatetime` leaves both to
`strptime`, and checks the length of the time only.  The pattern of `strptime` lets a month or a day
do with one digit, a day have a space for its first one, and a digit be one of any script: that is
all that it takes beyond ADIF (`parseAdifDatetime_exact_iff`).
-/

set_option autoImplicit false

namespace Ollog

open Effects

/-! ## What a pattern matches -/

section

variable {p : Char → Bool} {alt : List (Char → Bool)} {f : Field} {fs : List Field}
  {cs taken rest : List Char} {texts : List (List Char)}

/-- A text that one of the alternatives of a field matches. -/
def Fits (f : Field) (cs : List Char) : Prop :=
  ∃ alt ∈ f, List.Forall₂ (fun (p : Char → Bool) c ↦ p c = true) alt cs

theorem length_le_of_fits {n : Nat} (hf : ∀ alt ∈ f, alt.length ≤ n) (h : Fits f cs) :
    cs.length ≤ n := by
  obtain ⟨alt, halt, hall⟩ := h
  exact hall.length_eq ▸ hf alt halt

theorem matchClasses_eq_some : matchClasses alt cs = some (taken, rest) ↔
    cs = taken ++ rest ∧ List.Forall₂ (fun (p : Char → Bool) c ↦ p c = true) alt taken := by
  induction alt generalizing cs taken with
  | nil =>
    rw [matchClasses, Option.some.injEq, Prod.mk.injEq, List.forall₂_nil_left_iff]
    constructor
    · rintro ⟨rfl, rfl⟩
      exact ⟨rfl, rfl⟩
    · rintro ⟨rfl, rfl⟩
      exact ⟨rfl, rfl⟩
  | cons p alt ih =>
    cases cs with
    | nil =>
      rw [matchClasses]
      refine ⟨fun h ↦ (nomatch h), ?_⟩
      rintro ⟨hnil, hall⟩
      obtain ⟨rfl, -⟩ := List.append_eq_nil_iff.1 hnil.symm
      cases hall
    | cons c cs =>
      rw [matchClasses]
      split
      · rename_i hp
        rw [Option.map_eq_some_iff]
        constructor
        · rintro ⟨⟨taken', rest'⟩, hmatch, heq⟩
          obtain ⟨rfl, rfl⟩ := Prod.mk.inj heq
          obtain ⟨rfl, hall⟩ := ih.1 hmatch
          exact ⟨rfl, .cons hp hall⟩
        · rintro ⟨heq, hall⟩
          cases hall with
          | cons hp' hall =>
            obtain ⟨rfl, rfl⟩ := List.cons.inj heq
            exact ⟨_, ih.2 ⟨rfl, hall⟩, rfl⟩
      · rename_i hp
        refine ⟨fun h ↦ (nomatch h), ?_⟩
        rintro ⟨heq, hall⟩
        cases hall with
        | cons hp' hall =>
          obtain ⟨rfl, rfl⟩ := List.cons.inj heq
          exact absurd hp' hp

/-- What is matched is cut into texts that fit the fields. -/
theorem fits_of_matchFields (h : matchFields fs cs = some (texts, rest)) :
    cs = texts.flatten ++ rest ∧ List.Forall₂ Fits fs texts := by
  induction fs generalizing cs texts with
  | nil =>
    obtain ⟨rfl, rfl⟩ := Prod.mk.inj (Option.some.inj h)
    exact ⟨rfl, .nil⟩
  | cons f fs ih =>
    rw [matchFields] at h
    obtain ⟨alt, halt, h⟩ := List.exists_of_findSome?_eq_some h
    split at h
    · cases h
    · rename_i taken rest' hmatch
      obtain ⟨⟨texts', rest''⟩, hrest, heq⟩ := Option.map_eq_some_iff.1 h
      obtain ⟨rfl, rfl⟩ := Prod.mk.inj heq
      obtain ⟨rfl, hall⟩ := matchClasses_eq_some.1 hmatch
      obtain ⟨rfl, htexts⟩ := ih hrest
      exact ⟨by rw [List.flatten_cons, List.append_assoc], .cons ⟨alt, halt, hall⟩ htexts⟩

end

/-! ## The fields of a date and of a time -/

theorem charRange_iff {a b c : Char} : charRange a b c = true ↔ a.toNat ≤ c.toNat ∧ c.toNat ≤ b.toNat := by
  rw [charRange, Bool.and_eq_true, decide_eq_true_iff, decide_eq_true_iff]
  rfl

theorem charRange_self {a c : Char} : charRange a a c = true ↔ c = a := by
  rw [charRange_iff]
  refine ⟨fun h ↦ Char.toNat_inj.1 (Nat.le_antisymm h.2 h.1), fun h ↦ h ▸ ⟨Nat.le_refl _, Nat.le_refl _⟩⟩

section

variable [UnicodeData] {cs y m d h s : List Char}

omit [UnicodeData] in
theorem fits_fieldMonth : Fits fieldMonth m ↔
    (∃ c, charRange '0' '2' c = true ∧ m = ['1', c]) ∨
      (∃ c, charRange '1' '9' c = true ∧ m = ['0', c]) ∨
      ∃ c, charRange '1' '9' c = true ∧ m = [c] := by
  simp only [Fits, fieldMonth, List.mem_cons, List.not_mem_nil, or_false, exists_eq_or_imp,
    exists_eq_left, List.forall₂_cons_left_iff, List.forall₂_nil_left_iff, charRange_self,
    existsAndEq, true_and, and_true]

theorem fits_fieldDay : Fits fieldDay d ↔
    (∃ c, charRange '0' '1' c = true ∧ d = ['3', c]) ∨
      (∃ b c, charRange '1' '2' b = true ∧ isDecimal c = true ∧ d = [b, c]) ∨
      (∃ c, charRange '1' '9' c = true ∧ d = ['0', c]) ∨
      (∃ c, charRange '1' '9' c = true ∧ d = [c]) ∨
      ∃ c, charRange '1' '9' c = true ∧ d = [' ', c] := by
  simp only [Fits, fieldDay, List.mem_cons, List.not_mem_nil, or_false, exists_eq_or_imp,
    exists_eq_left, List.forall₂_cons_left_iff, List.forall₂_nil_left_iff, charRange_self,
    existsAndEq, true_and, and_true]

theorem fits_fieldY : Fits fieldY y ↔ ∃ a b c e, isDecimal a = true ∧ isDecimal b = true ∧
    isDecimal c = true ∧ isDecimal e = true ∧ y = [a, b, c, e] := by
  simp only [Fits, fieldY, List.mem_cons, List.not_mem_nil, or_false,
    exists_eq_left, List.forall₂_cons_left_iff, List.forall₂_nil_left_iff,
    existsAndEq, true_and, and_true, and_assoc]

/-- A day that fits is matched whole. -/
theorem matchFields_fieldDay (hd : Fits fieldDay d) : matchFields [fieldDay] d = some ([d], []) := by
  obtain ⟨c, hc, rfl⟩ | ⟨b, c, hb, hc, rfl⟩ | ⟨c, hc, rfl⟩ | ⟨c, hc, rfl⟩ | ⟨c, hc, rfl⟩ :=
    fits_fieldDay.1 hd
  · simp [matchFields, fieldDay, matchClasses, charRange_self, hc]
  · have hne : b ≠ '3' := by rintro rfl; revert hb; decide
    simp [matchFields, fieldDay, matchClasses, charRange_self, hb, hc, hne]
  · have h12 : charRange '1' '2' '0' = false := by decide
    simp [matchFields, fieldDay, matchClasses, charRange_self, hc, h12]
  · simp [matchFields, fieldDay, matchClasses, hc]
  · have h12 : charRange '1' '2' ' ' = false := by decide
    have h19 : charRange '1' '9' ' ' = false := by decide
    simp [matchFields, fieldDay, matchClasses, charRange_self, hc, h12, h19]

/-- A month of two digits is matched whole, and so is the day behind it. -/
theorem matchFields_month_two (hm : Fits fieldMonth m) (hlen : m.length = 2)
    (hd : Fits fieldDay d) : matchFields [fieldMonth, fieldDay] (m ++ d) = some ([m, d], []) := by
  have hday := matchFields_fieldDay hd
  obtain ⟨c, hc, rfl⟩ | ⟨c, hc, rfl⟩ | ⟨c, hc, rfl⟩ := fits_fieldMonth.1 hm
  · rw [matchFields]
    simp [fieldMonth, matchClasses, charRange_self, hc, hday]
  · rw [matchFields]
    simp [fieldMonth, matchClasses, charRange_self, hc, hday]
  · cases hlen

/-- A month of one digit is matched too, if not always together with the day behind it: `1` and `11`
is read as `11` and `1`. -/
theorem matchFields_month_one {c : Char} (hc : charRange '1' '9' c = true) (hd : Fits fieldDay d) :
    matchFields [fieldMonth, fieldDay] (c :: d) = some ([[c], d], []) ∨
      ∃ x z, charRange '0' '2' x = true ∧ charRange '1' '9' z = true ∧ c = '1' ∧ d = [x, z] ∧
        matchFields [fieldMonth, fieldDay] (c :: d) = some ([[c, x], [z]], []) := by
  have hday := matchFields_fieldDay hd
  have hzero : c ≠ '0' := by rintro rfl; revert hc; decide
  have hone : charRange '1' '9' '1' = true := by decide
  by_cases hsplit : c = '1' ∧ ∃ x z, d = [x, z] ∧ charRange '0' '2' x = true ∧
      charRange '1' '9' z = true
  · obtain ⟨rfl, x, z, rfl, hx, hz⟩ := hsplit
    have hlast := matchFields_fieldDay (fits_fieldDay.2 (.inr (.inr (.inr (.inl ⟨z, hz, rfl⟩)))))
    refine .inr ⟨x, z, hx, hz, rfl, rfl, ?_⟩
    rw [matchFields]
    simp [fieldMonth, matchClasses, charRange_self, hx, hlast]
  · refine .inl ?_
    have hfirst : ∀ x rest, d = x :: rest → c = '1' → charRange '0' '2' x = true →
        matchFields [fieldDay] rest = none := by
      intro x rest hd' hc' hx
      have hthree : charRange '0' '2' '3' = false := by decide
      have hspace : charRange '0' '2' ' ' = false := by decide
      obtain ⟨z, hz, rfl⟩ | ⟨b, z, hb, hz, rfl⟩ | ⟨z, hz, rfl⟩ | ⟨z, hz, rfl⟩ | ⟨z, hz, rfl⟩ :=
        fits_fieldDay.1 hd <;> obtain ⟨rfl, rfl⟩ := List.cons.inj hd'
      · rw [hthree] at hx
        cases hx
      · have hno : charRange '1' '9' z = false :=
          Bool.eq_false_iff.2 fun hz' ↦ hsplit ⟨hc', _, z, rfl, hx, hz'⟩
        simp [matchFields, fieldDay, matchClasses, hno]
      · exact absurd ⟨hc', _, z, rfl, hx, hz⟩ hsplit
      · simp [matchFields, fieldDay, matchClasses]
      · rw [hspace] at hx
        cases hx
    cases d with
    | nil => simp [fits_fieldDay] at hd
    | cons x rest =>
      rw [matchFields]
      by_cases hc' : c = '1'
      · cases hx : charRange '0' '2' x with
        | false => simp [fieldMonth, matchClasses, charRange_self, hc', hone, hx, hday]
        | true =>
          have hnone := hfirst x rest rfl hc' hx
          simp [fieldMonth, matchClasses, charRange_self, hc', hone, hx, hday, hnone]
      · simp [fieldMonth, matchClasses, charRange_self, hc', hzero, hc, hday]

theorem matchFields_fieldY (hy : Fits fieldY y) (fs : List Field) :
    matchFields (fieldY :: fs) (y ++ cs) =
      (matchFields fs cs).map fun (texts, rest) ↦ (y :: texts, rest) := by
  obtain ⟨a, b, c, e, ha, hb, hc, he, rfl⟩ := fits_fieldY.1 hy
  rw [matchFields]
  simp [fieldY, matchClasses, ha, hb, hc, he]

theorem fits_fieldHour : Fits fieldHour h ↔
    (∃ c, charRange '0' '3' c = true ∧ h = ['2', c]) ∨
      (∃ b c, charRange '0' '1' b = true ∧ isDecimal c = true ∧ h = [b, c]) ∨
      ∃ c, isDecimal c = true ∧ h = [c] := by
  simp only [Fits, fieldHour, List.mem_cons, List.not_mem_nil, or_false, exists_eq_or_imp,
    exists_eq_left, List.forall₂_cons_left_iff, List.forall₂_nil_left_iff, charRange_self,
    existsAndEq, true_and, and_true]

theorem fits_fieldMinute : Fits fieldMinute m ↔
    (∃ b c, charRange '0' '5' b = true ∧ isDecimal c = true ∧ m = [b, c]) ∨
      ∃ c, isDecimal c = true ∧ m = [c] := by
  simp only [Fits, fieldMinute, List.mem_cons, List.not_mem_nil, or_false, exists_eq_or_imp,
    exists_eq_left, List.forall₂_cons_left_iff, List.forall₂_nil_left_iff, existsAndEq, true_and,
    and_true]

theorem fits_fieldSecond : Fits fieldSecond s ↔
    (∃ c, charRange '0' '1' c = true ∧ s = ['6', c]) ∨
      (∃ b c, charRange '0' '5' b = true ∧ isDecimal c = true ∧ s = [b, c]) ∨
      ∃ c, isDecimal c = true ∧ s = [c] := by
  simp only [Fits, fieldSecond, List.mem_cons, List.not_mem_nil, or_false, exists_eq_or_imp,
    exists_eq_left, List.forall₂_cons_left_iff, List.forall₂_nil_left_iff, charRange_self,
    existsAndEq, true_and, and_true]

/-- A second of two digits at the end is matched whole. -/
theorem matchFields_fieldSecond (hs : Fits fieldSecond s) (hlen : s.length = 2) :
    matchFields [fieldSecond] s = some ([s], []) := by
  obtain ⟨c, hc, rfl⟩ | ⟨b, c, hb, hc, rfl⟩ | ⟨c, hc, rfl⟩ := fits_fieldSecond.1 hs
  · simp [matchFields, fieldSecond, matchClasses, charRange_self, hc]
  · have hne : b ≠ '6' := by rintro rfl; revert hb; decide
    simp [matchFields, fieldSecond, matchClasses, charRange_self, hne, hb, hc]
  · cases hlen

/-- A minute of two digits is matched whole, if what is behind it is matched. -/
theorem matchFields_fieldMinute {fs : List Field} {texts : List (List Char)}
    (hm : Fits fieldMinute m) (hlen : m.length = 2) (h : matchFields fs cs = some (texts, [])) :
    matchFields (fieldMinute :: fs) (m ++ cs) = some (m :: texts, []) := by
  obtain ⟨b, c, hb, hc, rfl⟩ | ⟨c, hc, rfl⟩ := fits_fieldMinute.1 hm
  · rw [matchFields]
    simp [fieldMinute, matchClasses, hb, hc, h]
  · cases hlen

/-- So is an hour. -/
theorem matchFields_fieldHour {fs : List Field} {texts : List (List Char)}
    (hh : Fits fieldHour h) (hlen : h.length = 2) (hrest : matchFields fs cs = some (texts, [])) :
    matchFields (fieldHour :: fs) (h ++ cs) = some (h :: texts, []) := by
  obtain ⟨c, hc, rfl⟩ | ⟨b, c, hb, hc, rfl⟩ | ⟨c, hc, rfl⟩ := fits_fieldHour.1 hh
  · rw [matchFields]
    simp [fieldHour, matchClasses, charRange_self, hc, hrest]
  · have hne : b ≠ '2' := by rintro rfl; revert hb; decide
    rw [matchFields]
    simp [fieldHour, matchClasses, charRange_self, hne, hb, hc, hrest]
  · cases hlen

end

/-! ## What `parse_adif_datetime` accepts -/

section

variable [UnicodeData] {date time : String} {day seconds : Nat}

/-- A date that `strptime` takes: a year of four digits, a month, and a day that the month has. -/
def LooseDate (date : String) : Prop :=
  ∃ y m d, date.toList = y ++ m ++ d ∧ Fits fieldY y ∧ Fits fieldMonth m ∧ Fits fieldDay d ∧
    fieldValue y ≠ 0 ∧ fieldValue d ≠ 0 ∧ fieldValue d ≤ daysInMonth (fieldValue y) (fieldValue m)

/-- A time that `parse_adif_datetime` takes. -/
def LooseTime (time : String) : Prop :=
  (time.length = 4 ∧ ∃ h m, time.toList = h ++ m ∧ Fits fieldHour h ∧ Fits fieldMinute m) ∨
    (time.length = 6 ∧ ∃ h m s, time.toList = h ++ m ++ s ∧ Fits fieldHour h ∧
      Fits fieldMinute m ∧ Fits fieldSecond s ∧ fieldValue s ≤ 59)

theorem strptimeFields_eq {fields : List Field} {format text : String} {texts : List (List Char)}
    (h : matchFields fields text.toList = some (texts, [])) :
    strptimeFields fields format text = .ok (texts.map fieldValue) := by
  rw [strptimeFields, h]

/-- What `strptime` has read is a text of each field. -/
theorem fits_of_strptimeFields {fields : List Field} {format text : String} {values : List Nat}
    (h : strptimeFields fields format text = .ok values) :
    ∃ texts, text.toList = texts.flatten ∧ List.Forall₂ Fits fields texts ∧
      values = texts.map fieldValue := by
  rw [strptimeFields] at h
  split at h
  · cases h
  · rename_i texts hmatch
    obtain ⟨htext, hfits⟩ := fits_of_matchFields hmatch
    exact ⟨texts, htext.trans (List.append_nil _), hfits, (Except.ok.inj h).symm⟩
  · cases h

theorem strptimeDate_eq {y m d : List Char}
    (h : matchFields [fieldY, fieldMonth, fieldDay] date.toList = some ([y, m, d], []))
    (hy : fieldValue y ≠ 0) (hd : fieldValue d ≠ 0)
    (hle : fieldValue d ≤ daysInMonth (fieldValue y) (fieldValue m)) :
    strptimeDate date = .ok (dayNumber (fieldValue y) (fieldValue m) (fieldValue d)) := by
  rw [strptimeDate, strptimeFields_eq h]
  refine (if_neg hy).trans (if_neg ?_)
  rintro (hzero | hlt)
  · exact hd hzero
  · exact Nat.not_lt.2 hle hlt

theorem looseDate_of_ok (h : strptimeDate date = .ok day) : LooseDate date := by
  obtain ⟨values, hvalues, h⟩ := bind_eq_ok.1 h
  obtain ⟨texts, htext, hfits, rfl⟩ := fits_of_strptimeFields hvalues
  obtain ⟨y, m, d, hy, hm, hd, rfl⟩ : ∃ y m d, Fits fieldY y ∧ Fits fieldMonth m ∧
      Fits fieldDay d ∧ texts = [y, m, d] := by
    simpa only [List.forall₂_cons_left_iff, List.forall₂_nil_left_iff, existsAndEq, true_and,
      and_true, and_assoc, exists_and_left] using hfits
  have hsplit : date.toList = y ++ m ++ d := by
    rw [htext, List.flatten_cons, List.flatten_cons, List.flatten_singleton, List.append_assoc]
  change (if fieldValue y = 0 then _ else if _ then _ else _) = _ at h
  split at h
  · cases h
  · rename_i hyear
    split at h
    · cases h
    · rename_i hday
      rw [not_or, Nat.not_lt] at hday
      exact ⟨y, m, d, hsplit, hy, hm, hd, hyear, hday.1, hday.2⟩

/-- A digit of the western kind. -/
theorem fieldValue_singleton {c : Char} (hc : charRange '1' '9' c = true) :
    1 ≤ fieldValue [c] ∧ fieldValue [c] ≤ 9 := by
  rw [charRange_iff] at hc
  have h0 : '0'.toNat = 48 := rfl
  have h1 : '1'.toNat = 49 := rfl
  have h9 : '9'.toNat = 57 := rfl
  have hdigit : c.isDigit = true := Char.isDigit_iff_toNat.2 ⟨by omega, hc.2⟩
  have hvalue : fieldValue [c] = c.toNat - '0'.toNat := by
    simp [fieldValue, decimal_of_isDigit hdigit]
  omega

/-- **The dates that are taken.** -/
theorem exists_strptimeDate_iff : (∃ day, strptimeDate date = .ok day) ↔ LooseDate date := by
  refine ⟨fun ⟨_, h⟩ ↦ looseDate_of_ok h, ?_⟩
  rintro ⟨y, m, d, hdate, hy, hm, hd, hyear, hday, hle⟩
  have hmatch : ∀ {m' d'}, matchFields [fieldMonth, fieldDay] (m ++ d) = some ([m', d'], []) →
      matchFields [fieldY, fieldMonth, fieldDay] date.toList = some ([y, m', d'], []) := by
    intro m' d' h
    rw [hdate, List.append_assoc, matchFields_fieldY hy, h]
    rfl
  obtain ⟨c, hc, rfl⟩ | ⟨c, hc, rfl⟩ | ⟨c, hc, rfl⟩ := fits_fieldMonth.1 hm
  · exact ⟨_, strptimeDate_eq (hmatch (matchFields_month_two hm rfl hd)) hyear hday hle⟩
  · exact ⟨_, strptimeDate_eq (hmatch (matchFields_month_two hm rfl hd)) hyear hday hle⟩
  · obtain hwhole | ⟨x, z, -, hz, -, -, hsplit⟩ := matchFields_month_one hc hd
    · exact ⟨_, strptimeDate_eq (hmatch hwhole) hyear hday hle⟩
    · -- The other reading is one of the first nine days of a month.
      obtain ⟨hpos, hnine⟩ := fieldValue_singleton hz
      refine ⟨_, strptimeDate_eq (hmatch hsplit) hyear (Nat.pos_iff_ne_zero.1 hpos) ?_⟩
      exact (hnine.trans (by decide)).trans le_daysInMonth

omit [UnicodeData] in
theorem length_le_two_of_fits {f : Field} {cs : List Char}
    (hf : (f.all fun alt ↦ decide (alt.length ≤ 2)) = true) (h : Fits f cs) : cs.length ≤ 2 :=
  length_le_of_fits (fun alt halt ↦ of_decide_eq_true (List.all_eq_true.1 hf alt halt)) h

/-- Four characters are two for the hour and two for the minute. -/
theorem parseAdifTime_four {h m : List Char} (hfour : time.length = 4)
    (htime : time.toList = h ++ m) (hh : Fits fieldHour h) (hm : Fits fieldMinute m) :
    parseAdifTime (.str time) = .ok (fieldValue h * 3600 + fieldValue m * 60) := by
  have hlength : time.toList.length = time.length := String.length_toList
  have hh2 := length_le_two_of_fits rfl hh
  have hm2 := length_le_two_of_fits rfl hm
  rw [hfour, htime, List.length_append] at hlength
  have hmatch : matchFields [fieldHour, fieldMinute] time.toList = some ([h, m], []) := by
    have hminute := @matchFields_fieldMinute _ [] _ [] _ hm (by omega) rfl
    rw [List.append_nil] at hminute
    rw [htime]
    exact matchFields_fieldHour hh (by omega) hminute
  dsimp only [parseAdifTime]
  rw [if_pos hfour, strptimeHM, strptimeFields_eq hmatch]
  rfl

/-- Six characters are two for each. -/
theorem parseAdifTime_six {h m s : List Char} (hsix : time.length = 6)
    (htime : time.toList = h ++ m ++ s) (hh : Fits fieldHour h) (hm : Fits fieldMinute m)
    (hs : Fits fieldSecond s) (hle : fieldValue s ≤ 59) :
    parseAdifTime (.str time) =
      .ok (fieldValue h * 3600 + fieldValue m * 60 + fieldValue s) := by
  have hlength : time.toList.length = time.length := String.length_toList
  have hh2 := length_le_two_of_fits rfl hh
  have hm2 := length_le_two_of_fits rfl hm
  have hs2 := length_le_two_of_fits rfl hs
  rw [hsix, htime, List.length_append, List.length_append] at hlength
  have hmatch : matchFields [fieldHour, fieldMinute, fieldSecond] time.toList =
      some ([h, m, s], []) := by
    rw [htime, List.append_assoc]
    exact matchFields_fieldHour hh (by omega) (matchFields_fieldMinute hm (by omega)
      (matchFields_fieldSecond hs (by omega)))
  dsimp only [parseAdifTime]
  rw [if_neg (by omega), if_pos hsix, strptimeHMS, strptimeFields_eq hmatch]
  exact if_neg (Nat.not_lt.2 hle)

/-- **The times that are taken.** -/
theorem exists_parseAdifTime_iff :
    (∃ seconds, parseAdifTime (.str time) = .ok seconds) ↔ LooseTime time := by
  constructor
  · rintro ⟨seconds, h⟩
    dsimp only [parseAdifTime] at h
    split at h
    · rename_i hfour
      obtain ⟨values, hvalues, -⟩ := bind_eq_ok.1 h
      obtain ⟨texts, htext, hfits, -⟩ := fits_of_strptimeFields hvalues
      obtain ⟨h, m, hh, hm, rfl⟩ : ∃ h m, Fits fieldHour h ∧ Fits fieldMinute m ∧
          texts = [h, m] := by
        simpa only [List.forall₂_cons_left_iff, List.forall₂_nil_left_iff, existsAndEq, true_and,
          and_true, and_assoc, exists_and_left] using hfits
      exact .inl ⟨hfour, h, m, by rw [htext]; simp, hh, hm⟩
    · split at h
      · rename_i hsix
        obtain ⟨values, hvalues, h⟩ := bind_eq_ok.1 h
        obtain ⟨texts, htext, hfits, rfl⟩ := fits_of_strptimeFields hvalues
        obtain ⟨h', m, s, hh, hm, hs, rfl⟩ : ∃ h m s, Fits fieldHour h ∧ Fits fieldMinute m ∧
            Fits fieldSecond s ∧ texts = [h, m, s] := by
          simpa only [List.forall₂_cons_left_iff, List.forall₂_nil_left_iff, existsAndEq, true_and,
            and_true, and_assoc, exists_and_left] using hfits
        change (if 59 < fieldValue s then _ else _) = _ at h
        split at h
        · cases h
        · rename_i hlt
          exact .inr ⟨hsix, h', m, s, by rw [htext]; simp, hh, hm, hs, Nat.not_lt.1 hlt⟩
      · cases h
  · rintro (⟨hfour, h, m, htime, hh, hm⟩ | ⟨hsix, h, m, s, htime, hh, hm, hs, hle⟩)
    · exact ⟨_, parseAdifTime_four hfour htime hh hm⟩
    · exact ⟨_, parseAdifTime_six hsix htime hh hm hs hle⟩

/-! ## ADIF -/

/-- The number that western digits write. -/
def digitsValue (cs : List Char) : Nat := Nat.ofDigitChars 10 cs 0

omit [UnicodeData] in
theorem digitsValue_nil : digitsValue [] = 0 := rfl

/-- A date of ADIF: eight digits that write a date of the calendar. -/
structure AdifDate (date : String) (day : Nat) : Prop where
  length : date.length = 8
  digits : ∀ c ∈ date.toList, c.isDigit = true
  isDate : IsDate (digitsValue (date.toList.take 4)) (digitsValue ((date.toList.drop 4).take 2))
    (digitsValue (date.toList.drop 6))
  day_eq : day = dayNumber (digitsValue (date.toList.take 4))
    (digitsValue ((date.toList.drop 4).take 2)) (digitsValue (date.toList.drop 6))

/-- A time of ADIF: four or six digits that write a time of the day. -/
structure AdifTime (time : String) (seconds : Nat) : Prop where
  length : time.length = 4 ∨ time.length = 6
  digits : ∀ c ∈ time.toList, c.isDigit = true
  hour : digitsValue (time.toList.take 2) ≤ 23
  minute : digitsValue ((time.toList.drop 2).take 2) ≤ 59
  second : digitsValue (time.toList.drop 4) ≤ 59
  seconds_eq : seconds = digitsValue (time.toList.take 2) * 3600 +
    digitsValue ((time.toList.drop 2).take 2) * 60 + digitsValue (time.toList.drop 4)

theorem fieldValue_of_isDigit {cs : List Char} (h : ∀ c ∈ cs, c.isDigit = true) :
    fieldValue cs = digitsValue cs := by
  have hfold : ∀ f : Nat → Char → Nat,
      (∀ n c, c.isDigit = true → f n c = n * 10 + (c.toNat - '0'.toNat)) →
      ∀ (cs : List Char) (acc : Nat), (∀ c ∈ cs, c.isDigit = true) →
        cs.foldl f acc = Nat.ofDigitChars 10 cs acc := by
    intro f hf cs
    induction cs with
    | nil => exact fun _ _ ↦ rfl
    | cons c cs ih =>
      intro acc h
      obtain ⟨hc, hcs⟩ := List.forall_mem_cons.1 h
      rw [List.foldl_cons, hf _ _ hc, Nat.ofDigitChars_cons, Nat.mul_comm 10 acc]
      exact ih _ hcs
  exact hfold _ (fun n c hc ↦ by rw [decimal_of_isDigit hc]) cs 0 h

/-- Two western digits. -/
theorem exists_of_two_digits {cs : List Char} (hlen : cs.length = 2)
    (h : ∀ c ∈ cs, c.isDigit = true) : ∃ a b, cs = [a, b] ∧ isDecimal a = true ∧
      isDecimal b = true ∧ 48 ≤ a.toNat ∧ a.toNat ≤ 57 ∧ 48 ≤ b.toNat ∧ b.toNat ≤ 57 ∧
      digitsValue cs = (a.toNat - 48) * 10 + (b.toNat - 48) := by
  obtain ⟨a, b, rfl⟩ := List.length_eq_two.1 hlen
  have ha := h a (List.mem_cons_self ..)
  have hb := h b (List.mem_cons_of_mem _ (List.mem_cons_self ..))
  obtain ⟨ha₁, ha₂⟩ := Char.isDigit_iff_toNat.1 ha
  obtain ⟨hb₁, hb₂⟩ := Char.isDigit_iff_toNat.1 hb
  refine ⟨a, b, rfl, by rw [isDecimal, decimal_of_isDigit ha]; rfl,
    by rw [isDecimal, decimal_of_isDigit hb]; rfl, ha₁, ha₂, hb₁, hb₂, ?_⟩
  rw [digitsValue, Nat.ofDigitChars_cons, Nat.ofDigitChars_cons, Nat.ofDigitChars_nil]
  have h0 : '0'.toNat = 48 := rfl
  omega

theorem fits_fieldMonth_iff {cs : List Char} (hlen : cs.length = 2)
    (h : ∀ c ∈ cs, c.isDigit = true) :
    Fits fieldMonth cs ↔ 1 ≤ digitsValue cs ∧ digitsValue cs ≤ 12 := by
  obtain ⟨a, b, rfl, -, -, ha, ha', hb, hb', hvalue⟩ := exists_of_two_digits hlen h
  rw [fits_fieldMonth, hvalue]
  simp only [List.cons.injEq, and_true, existsAndEq, reduceCtorEq, and_false, exists_false,
    or_false]
  simp only [charRange_iff, ← Char.toNat_inj, Char.reduceToNat]
  omega

theorem fits_fieldDay_iff {cs : List Char} (hlen : cs.length = 2)
    (h : ∀ c ∈ cs, c.isDigit = true) :
    Fits fieldDay cs ↔ 1 ≤ digitsValue cs ∧ digitsValue cs ≤ 31 := by
  obtain ⟨a, b, rfl, -, hdb, ha, ha', hb, hb', hvalue⟩ := exists_of_two_digits hlen h
  rw [fits_fieldDay, hvalue]
  simp only [List.cons.injEq, and_true, existsAndEq, reduceCtorEq, and_false, exists_false,
    false_or, hdb, true_and]
  simp only [charRange_iff, ← Char.toNat_inj, Char.reduceToNat]
  omega

theorem fits_fieldHour_iff {cs : List Char} (hlen : cs.length = 2)
    (h : ∀ c ∈ cs, c.isDigit = true) : Fits fieldHour cs ↔ digitsValue cs ≤ 23 := by
  obtain ⟨a, b, rfl, -, hdb, ha, ha', hb, hb', hvalue⟩ := exists_of_two_digits hlen h
  rw [fits_fieldHour, hvalue]
  simp only [List.cons.injEq, and_true, existsAndEq, reduceCtorEq, and_false, exists_false,
    or_false, hdb, true_and]
  simp only [charRange_iff, ← Char.toNat_inj, Char.reduceToNat]
  omega

theorem fits_fieldMinute_iff {cs : List Char} (hlen : cs.length = 2)
    (h : ∀ c ∈ cs, c.isDigit = true) : Fits fieldMinute cs ↔ digitsValue cs ≤ 59 := by
  obtain ⟨a, b, rfl, -, hdb, ha, ha', hb, hb', hvalue⟩ := exists_of_two_digits hlen h
  rw [fits_fieldMinute, hvalue]
  simp only [List.cons.injEq, and_true, existsAndEq, reduceCtorEq, and_false, exists_false,
    or_false, hdb, true_and]
  simp only [charRange_iff, Char.reduceToNat]
  omega

theorem fits_fieldSecond_iff {cs : List Char} (hlen : cs.length = 2)
    (h : ∀ c ∈ cs, c.isDigit = true) : Fits fieldSecond cs ↔ digitsValue cs ≤ 61 := by
  obtain ⟨a, b, rfl, -, hdb, ha, ha', hb, hb', hvalue⟩ := exists_of_two_digits hlen h
  rw [fits_fieldSecond, hvalue]
  simp only [List.cons.injEq, and_true, existsAndEq, reduceCtorEq, and_false, exists_false,
    or_false, hdb, true_and]
  simp only [charRange_iff, ← Char.toNat_inj, Char.reduceToNat]
  omega

theorem fits_fieldY_of_isDigit {cs : List Char} (hlen : cs.length = 4)
    (h : ∀ c ∈ cs, c.isDigit = true) : Fits fieldY cs := by
  have hdecimal : ∀ c ∈ cs, isDecimal c = true := fun c hc ↦ by
    rw [isDecimal, decimal_of_isDigit (h c hc)]
    rfl
  match cs, hlen with
  | [a, b, c, e], _ =>
    simp only [List.forall_mem_cons, List.not_mem_nil, false_imp_iff, implies_true,
      and_true] at hdecimal
    exact fits_fieldY.2 ⟨a, b, c, e, hdecimal.1, hdecimal.2.1, hdecimal.2.2.1, hdecimal.2.2.2, rfl⟩

/-- Eight characters are four for the year, two for the month and two for the day. -/
theorem strptimeDate_of_split {y m d : List Char} (hdate : date.toList = y ++ m ++ d)
    (hy : Fits fieldY y) (hm : Fits fieldMonth m) (hd : Fits fieldDay d) (hlen : m.length = 2)
    (hyear : fieldValue y ≠ 0) (hday : fieldValue d ≠ 0)
    (hle : fieldValue d ≤ daysInMonth (fieldValue y) (fieldValue m)) :
    strptimeDate date = .ok (dayNumber (fieldValue y) (fieldValue m) (fieldValue d)) := by
  refine strptimeDate_eq ?_ hyear hday hle
  rw [hdate, List.append_assoc, matchFields_fieldY hy, matchFields_month_two hm hlen hd]
  rfl

omit [UnicodeData] in
/-- The parts of a date. -/
theorem parts_of_split {y m d : List Char} (hdate : date.toList = y ++ m ++ d) (hy : y.length = 4)
    (hm : m.length = 2) : date.toList.take 4 = y ∧ (date.toList.drop 4).take 2 = m ∧
      date.toList.drop 6 = d := by
  rw [hdate, List.append_assoc]
  refine ⟨List.take_left' hy, ?_, ?_⟩
  · rw [List.drop_left' hy, List.take_left' hm]
  · rw [← List.append_assoc, List.drop_left' (by rw [List.length_append, hy, hm])]

/-- **The dates of ADIF** are the dates taken that are eight digits. -/
theorem adifDate_iff : AdifDate date day ↔
    strptimeDate date = .ok day ∧ date.length = 8 ∧ ∀ c ∈ date.toList, c.isDigit = true := by
  have hlength : date.toList.length = date.length := String.length_toList
  constructor
  · rintro ⟨hlen, hdigits, hdate, rfl⟩
    refine ⟨?_, hlen, hdigits⟩
    have hsplit : date.toList =
        date.toList.take 4 ++ (date.toList.drop 4).take 2 ++ date.toList.drop 6 := by
      rw [List.append_assoc, ← List.drop_drop (i := 2) (j := 4), List.take_append_drop,
        List.take_append_drop]
    have hy : ∀ c ∈ date.toList.take 4, c.isDigit = true := fun c hc ↦
      hdigits c (List.mem_of_mem_take hc)
    have hm : ∀ c ∈ (date.toList.drop 4).take 2, c.isDigit = true := fun c hc ↦
      hdigits c (List.mem_of_mem_drop (List.mem_of_mem_take hc))
    have hd : ∀ c ∈ date.toList.drop 6, c.isDigit = true := fun c hc ↦
      hdigits c (List.mem_of_mem_drop hc)
    have hyear : (date.toList.take 4).length = 4 := by
      rw [List.length_take]
      omega
    have hmonth : ((date.toList.drop 4).take 2).length = 2 := by
      rw [List.length_take, List.length_drop]
      omega
    have hday : (date.toList.drop 6).length = 2 := by
      rw [List.length_drop]
      omega
    have hparse := strptimeDate_of_split hsplit (fits_fieldY_of_isDigit hyear hy)
      ((fits_fieldMonth_iff hmonth hm).2 ⟨hdate.month, hdate.month_le⟩)
      ((fits_fieldDay_iff hday hd).2 ⟨hdate.day, hdate.day_le.trans daysInMonth_le⟩) hmonth
    simp only [fieldValue_of_isDigit hy, fieldValue_of_isDigit hm, fieldValue_of_isDigit hd]
      at hparse
    exact hparse (Nat.pos_iff_ne_zero.1 hdate.year) (Nat.pos_iff_ne_zero.1 hdate.day) hdate.day_le
  · rintro ⟨hok, hlen, hdigits⟩
    obtain ⟨y, m, d, hsplit, hy, hm, hd, hyear, hday, hle⟩ := looseDate_of_ok hok
    have hy4 : y.length = 4 := by
      obtain ⟨_, _, _, _, -, -, -, -, rfl⟩ := fits_fieldY.1 hy
      rfl
    have hm2 := length_le_two_of_fits rfl hm
    have hd2 := length_le_two_of_fits rfl hd
    have htotal := hlength
    rw [hlen, hsplit, List.length_append, List.length_append] at htotal
    have hmlen : m.length = 2 := by omega
    have hdlen : d.length = 2 := by omega
    have hparse := strptimeDate_of_split hsplit hy hm hd hmlen hyear hday hle
    obtain rfl := Except.ok.inj (hok.symm.trans hparse)
    rw [hsplit] at hdigits
    simp only [List.forall_mem_append] at hdigits
    obtain ⟨⟨hyd, hmd⟩, hdd⟩ := hdigits
    obtain ⟨hty, htm, htd⟩ := parts_of_split hsplit hy4 hmlen
    have hdigits' : ∀ c ∈ date.toList, c.isDigit = true := by
      rw [hsplit]
      simp only [List.forall_mem_append]
      exact ⟨⟨hyd, hmd⟩, hdd⟩
    rw [fieldValue_of_isDigit hyd, fieldValue_of_isDigit hmd, fieldValue_of_isDigit hdd]
    rw [fieldValue_of_isDigit hyd] at hyear hle
    rw [fieldValue_of_isDigit hmd, fieldValue_of_isDigit hdd] at hle
    rw [fieldValue_of_isDigit hdd] at hday
    have hmonth := (fits_fieldMonth_iff hmlen hmd).1 hm
    refine ⟨hlen, hdigits', ?_, ?_⟩
    · rw [hty, htm, htd]
      exact ⟨Nat.pos_iff_ne_zero.2 hyear, hmonth.1, hmonth.2, Nat.pos_iff_ne_zero.2 hday, hle⟩
    · rw [hty, htm, htd]

omit [UnicodeData] in
theorem adifTime_of_split {h m s : List Char} (htime : time.toList = h ++ m ++ s)
    (hh : h.length = 2) (hm : m.length = 2) (hs : s.length = 0 ∨ s.length = 2)
    (hdigits : ∀ c ∈ time.toList, c.isDigit = true) :
    AdifTime time seconds ↔ digitsValue h ≤ 23 ∧ digitsValue m ≤ 59 ∧ digitsValue s ≤ 59 ∧
      seconds = digitsValue h * 3600 + digitsValue m * 60 + digitsValue s := by
  have hlength : time.toList.length = time.length := String.length_toList
  rw [htime, List.length_append, List.length_append] at hlength
  have hparts : time.toList.take 2 = h ∧ (time.toList.drop 2).take 2 = m ∧
      time.toList.drop 4 = s := by
    rw [htime, List.append_assoc]
    refine ⟨List.take_left' hh, ?_, ?_⟩
    · rw [List.drop_left' hh, List.take_left' hm]
    · rw [← List.append_assoc, List.drop_left' (by rw [List.length_append, hh, hm])]
  constructor
  · rintro ⟨-, -, hhour, hminute, hsecond, hseconds⟩
    rw [hparts.1, hparts.2.1, hparts.2.2] at hseconds
    rw [hparts.1] at hhour
    rw [hparts.2.1] at hminute
    rw [hparts.2.2] at hsecond
    exact ⟨hhour, hminute, hsecond, hseconds⟩
  · rintro ⟨hhour, hminute, hsecond, hseconds⟩
    refine ⟨by omega, hdigits, ?_, ?_, ?_, ?_⟩
    · rwa [hparts.1]
    · rwa [hparts.2.1]
    · rwa [hparts.2.2]
    · rwa [hparts.1, hparts.2.1, hparts.2.2]

/-- What is read of two digits for the hour, two for the minute, and perhaps two for the second. -/
theorem parseAdifTime_of_split {h m s : List Char} (htime : time.toList = h ++ m ++ s)
    (hh : h.length = 2) (hm : m.length = 2) (hs : s.length = 0 ∨ s.length = 2)
    (hdigits : ∀ c ∈ time.toList, c.isDigit = true) :
    parseAdifTime (.str time) = .ok seconds ↔ digitsValue h ≤ 23 ∧ digitsValue m ≤ 59 ∧
      digitsValue s ≤ 59 ∧
      seconds = digitsValue h * 3600 + digitsValue m * 60 + digitsValue s := by
  have hlength : time.toList.length = time.length := String.length_toList
  rw [htime] at hdigits
  rw [htime, List.length_append, List.length_append] at hlength
  simp only [List.forall_mem_append] at hdigits
  obtain ⟨⟨hhd, hmd⟩, hsd⟩ := hdigits
  constructor
  · intro hok
    obtain ⟨hfour, h', m', htime', hh', hm'⟩ | ⟨hsix, h', m', s', htime', hh', hm', hs', hle⟩ :=
      exists_parseAdifTime_iff.1 ⟨_, hok⟩
    · have hs0 : s = [] := List.length_eq_zero_iff.1 (by omega)
      subst hs0
      rw [htime, List.append_nil] at htime'
      have hh2 := length_le_two_of_fits rfl hh'
      have hm2 := length_le_two_of_fits rfl hm'
      have hlen := congrArg List.length htime'
      rw [List.length_append, List.length_append] at hlen
      obtain ⟨rfl, rfl⟩ := List.append_inj htime' (by omega)
      have hparse := parseAdifTime_four hfour (htime.trans (List.append_nil _)) hh' hm'
      rw [fieldValue_of_isDigit hhd, fieldValue_of_isDigit hmd] at hparse
      rw [digitsValue_nil, Nat.add_zero]
      exact ⟨(fits_fieldHour_iff hh hhd).1 hh', (fits_fieldMinute_iff hm hmd).1 hm',
        Nat.zero_le _, Except.ok.inj (hok.symm.trans hparse)⟩
    · have hh2 := length_le_two_of_fits rfl hh'
      have hm2 := length_le_two_of_fits rfl hm'
      have hs2 := length_le_two_of_fits rfl hs'
      rw [htime] at htime'
      have hlen := congrArg List.length htime'
      simp only [List.length_append] at hlen
      obtain ⟨hhm, rfl⟩ := List.append_inj' htime' (by omega)
      obtain ⟨rfl, rfl⟩ := List.append_inj hhm (by omega)
      have hparse := parseAdifTime_six hsix htime hh' hm' hs' hle
      rw [fieldValue_of_isDigit hhd, fieldValue_of_isDigit hmd, fieldValue_of_isDigit hsd] at hparse
      rw [fieldValue_of_isDigit hsd] at hle
      exact ⟨(fits_fieldHour_iff hh hhd).1 hh', (fits_fieldMinute_iff hm hmd).1 hm', hle,
        Except.ok.inj (hok.symm.trans hparse)⟩
  · rintro ⟨hhour, hminute, hsecond, rfl⟩
    have hfh := (fits_fieldHour_iff hh hhd).2 hhour
    have hfm := (fits_fieldMinute_iff hm hmd).2 hminute
    obtain hs0 | hs2 := hs
    · obtain rfl := List.length_eq_zero_iff.1 hs0
      rw [List.append_nil] at htime
      rw [parseAdifTime_four (by omega) htime hfh hfm, fieldValue_of_isDigit hhd,
        fieldValue_of_isDigit hmd, digitsValue_nil, Nat.add_zero]
    · have hfs := (fits_fieldSecond_iff hs2 hsd).2 (by omega)
      rw [parseAdifTime_six (by omega) htime hfh hfm hfs (by rwa [fieldValue_of_isDigit hsd]),
        fieldValue_of_isDigit hhd, fieldValue_of_isDigit hmd, fieldValue_of_isDigit hsd]

/-- **The times of ADIF** are the times taken that are digits. -/
theorem adifTime_iff : AdifTime time seconds ↔
    parseAdifTime (.str time) = .ok seconds ∧ ∀ c ∈ time.toList, c.isDigit = true := by
  have hlength : time.toList.length = time.length := String.length_toList
  have hsplit : ∀ n, time.length = n → n = 4 ∨ n = 6 → ∃ h m s, time.toList = h ++ m ++ s ∧
      h.length = 2 ∧ m.length = 2 ∧ (s.length = 0 ∨ s.length = 2) := by
    intro n hn hcases
    refine ⟨time.toList.take 2, (time.toList.drop 2).take 2, time.toList.drop 4, ?_, ?_, ?_, ?_⟩
    · rw [List.append_assoc, ← List.drop_drop (i := 2) (j := 2), List.take_append_drop,
        List.take_append_drop]
    · rw [List.length_take]
      omega
    · rw [List.length_take, List.length_drop]
      omega
    · rw [List.length_drop]
      omega
  constructor
  · intro h
    obtain ⟨h', m, s, htime, hh, hm, hs⟩ := hsplit _ rfl h.length
    refine ⟨(parseAdifTime_of_split htime hh hm hs h.digits).2 ?_, h.digits⟩
    exact (adifTime_of_split htime hh hm hs h.digits).1 h
  · rintro ⟨hok, hdigits⟩
    have hcases : time.length = 4 ∨ time.length = 6 :=
      (exists_parseAdifTime_iff.1 ⟨_, hok⟩).imp And.left And.left
    obtain ⟨h', m, s, htime, hh, hm, hs⟩ := hsplit _ rfl hcases
    refine (adifTime_of_split htime hh hm hs hdigits).2 ?_
    exact (parseAdifTime_of_split htime hh hm hs hdigits).1 hok

/-! ## The grammar -/

/-- A date and a time of ADIF, and the instant they write. -/
def AdifDatetime (date time : String) (dt : DateTime) : Prop :=
  ∃ day seconds, AdifDate date day ∧ AdifTime time seconds ∧ dt = combineUtc day seconds

theorem parseAdifDatetime_iff {dt : DateTime} :
    parseAdifDatetime (.str date) (.str time) = .ok dt ↔ ∃ day seconds,
      strptimeDate date = .ok day ∧ parseAdifTime (.str time) = .ok seconds ∧
        dt = combineUtc day seconds := by
  constructor
  · intro h
    obtain ⟨day, hday, h⟩ := bind_eq_ok.1 h
    obtain ⟨seconds, hseconds, h⟩ := bind_eq_ok.1 h
    exact ⟨day, seconds, hday, hseconds, (Except.ok.inj h).symm⟩
  · rintro ⟨day, seconds, hday, hseconds, rfl⟩
    exact bind_eq_ok.2 ⟨day, hday, bind_eq_ok.2 ⟨seconds, hseconds, rfl⟩⟩

/-- **What is accepted of ADIF**, and nothing is misread. -/
theorem adifDatetime_iff {dt : DateTime} : AdifDatetime date time dt ↔
    parseAdifDatetime (.str date) (.str time) = .ok dt ∧ date.length = 8 ∧
      (∀ c ∈ date.toList, c.isDigit = true) ∧ ∀ c ∈ time.toList, c.isDigit = true := by
  rw [AdifDatetime, parseAdifDatetime_iff]
  constructor
  · rintro ⟨day, seconds, hdate, htime, rfl⟩
    obtain ⟨hday, hlen, hdigits⟩ := adifDate_iff.1 hdate
    obtain ⟨hseconds, hdigits'⟩ := adifTime_iff.1 htime
    exact ⟨⟨day, seconds, hday, hseconds, rfl⟩, hlen, hdigits, hdigits'⟩
  · rintro ⟨⟨day, seconds, hday, hseconds, rfl⟩, hlen, hdigits, hdigits'⟩
    exact ⟨day, seconds, adifDate_iff.2 ⟨hday, hlen, hdigits⟩,
      adifTime_iff.2 ⟨hseconds, hdigits'⟩, rfl⟩

/-! ## Different texts, different instants -/

omit [UnicodeData] in
theorem digitsValue_cons (c : Char) (cs : List Char) :
    digitsValue (c :: cs) = (c.toNat - '0'.toNat) * 10 ^ cs.length + digitsValue cs := by
  rw [digitsValue, Nat.ofDigitChars_cons, Nat.ofDigitChars_eq_ofDigitChars_zero, Nat.mul_zero,
    Nat.zero_add, Nat.mul_comm]
  rfl

omit [UnicodeData] in
theorem digitsValue_lt {cs : List Char} (h : ∀ c ∈ cs, c.isDigit = true) :
    digitsValue cs < 10 ^ cs.length := by
  induction cs with
  | nil => decide
  | cons c cs ih =>
    obtain ⟨hc, hcs⟩ := List.forall_mem_cons.1 h
    obtain ⟨hlow, hhigh⟩ := Char.isDigit_iff_toNat.1 hc
    have hrest := ih hcs
    have h0 : '0'.toNat = 48 := rfl
    have h9 : '9'.toNat = 57 := rfl
    have hle : (c.toNat - '0'.toNat) * 10 ^ cs.length ≤ 9 * 10 ^ cs.length :=
      Nat.mul_le_mul_right _ (by omega)
    rw [digitsValue_cons, List.length_cons, Nat.pow_succ]
    omega

omit [UnicodeData] in
/-- Digits are determined by how many they are and what they write. -/
theorem digitsValue_inj {cs cs' : List Char} (hlen : cs.length = cs'.length)
    (h : ∀ c ∈ cs, c.isDigit = true) (h' : ∀ c ∈ cs', c.isDigit = true)
    (heq : digitsValue cs = digitsValue cs') : cs = cs' := by
  induction cs generalizing cs' with
  | nil => exact (List.length_eq_zero_iff.1 hlen.symm).symm
  | cons c cs ih =>
    cases cs' with
    | nil => cases hlen
    | cons c' cs' =>
      obtain ⟨hc, hcs⟩ := List.forall_mem_cons.1 h
      obtain ⟨hc', hcs'⟩ := List.forall_mem_cons.1 h'
      have hlen' : cs.length = cs'.length := Nat.succ.inj hlen
      rw [digitsValue_cons, digitsValue_cons, ← hlen'] at heq
      have hlt := digitsValue_lt hcs
      have hlt' := digitsValue_lt hcs'
      rw [← hlen'] at hlt'
      have hpos : 0 < 10 ^ cs.length := Nat.pow_pos (by decide)
      have hdiv := congrArg (· / 10 ^ cs.length) heq
      have hmod := congrArg (· % 10 ^ cs.length) heq
      simp only [Nat.mul_comm _ (10 ^ cs.length), Nat.mul_add_mod, Nat.mod_eq_of_lt hlt,
        Nat.mod_eq_of_lt hlt'] at hmod
      simp only [Nat.mul_comm _ (10 ^ cs.length), Nat.mul_add_div hpos,
        Nat.div_eq_of_lt hlt, Nat.div_eq_of_lt hlt', Nat.add_zero] at hdiv
      obtain ⟨hlow, -⟩ := Char.isDigit_iff_toNat.1 hc
      obtain ⟨hlow', -⟩ := Char.isDigit_iff_toNat.1 hc'
      have h0 : '0'.toNat = 48 := rfl
      rw [Char.toNat_inj.1 (by omega : c.toNat = c'.toNat), ih hlen' hcs hcs' hmod]

omit [UnicodeData] in
theorem adifDate_inj {date' : String} (h : AdifDate date day) (h' : AdifDate date' day) :
    date = date' := by
  have hlen : date.toList.length = 8 := String.length_toList.trans h.length
  have hlen' : date'.toList.length = 8 := String.length_toList.trans h'.length
  obtain ⟨hy, hm, hd⟩ := dayNumber_inj h.isDate h'.isDate (h.day_eq.symm.trans h'.day_eq)
  have hyear := digitsValue_inj (by simp only [List.length_take, hlen, hlen'])
    (fun c hc ↦ h.digits c (List.mem_of_mem_take hc))
    (fun c hc ↦ h'.digits c (List.mem_of_mem_take hc)) hy
  have hmonth := digitsValue_inj (by simp only [List.length_take, List.length_drop, hlen, hlen'])
    (fun c hc ↦ h.digits c (List.mem_of_mem_drop (List.mem_of_mem_take hc)))
    (fun c hc ↦ h'.digits c (List.mem_of_mem_drop (List.mem_of_mem_take hc))) hm
  have hday := digitsValue_inj (by simp only [List.length_drop, hlen, hlen'])
    (fun c hc ↦ h.digits c (List.mem_of_mem_drop hc))
    (fun c hc ↦ h'.digits c (List.mem_of_mem_drop hc)) hd
  refine String.toList_inj.1 ?_
  rw [← List.take_append_drop 4 date.toList, ← List.take_append_drop 4 date'.toList,
    ← List.take_append_drop 2 (date.toList.drop 4), ← List.take_append_drop 2 (date'.toList.drop 4),
    List.drop_drop, List.drop_drop, hyear, hmonth, hday]

omit [UnicodeData] in
theorem adifTime_lt (h : AdifTime time seconds) : seconds < 86400 := by
  have := h.hour
  have := h.minute
  have := h.second
  have := h.seconds_eq
  omega

omit [UnicodeData] in
/-- Two texts of one time are of one length, or one goes on with `00`. -/
theorem adifTime_inj {time' : String} (h : AdifTime time seconds) (h' : AdifTime time' seconds)
    (hle : time.length ≤ time'.length) : time' = time ∨ time' = time ++ "00" := by
  have hlen : time.toList.length = time.length := String.length_toList
  have hlen' : time'.toList.length = time'.length := String.length_toList
  have hcases := h.length
  have hcases' := h'.length
  obtain ⟨hh, hm, hs⟩ : digitsValue (time.toList.take 2) = digitsValue (time'.toList.take 2) ∧
      digitsValue ((time.toList.drop 2).take 2) = digitsValue ((time'.toList.drop 2).take 2) ∧
      digitsValue (time.toList.drop 4) = digitsValue (time'.toList.drop 4) := by
    have := h.seconds_eq.symm.trans h'.seconds_eq
    have := h.minute
    have := h'.minute
    have := h.second
    have := h'.second
    omega
  have hhour := digitsValue_inj (by simp only [List.length_take]; omega)
    (fun c hc ↦ h.digits c (List.mem_of_mem_take hc))
    (fun c hc ↦ h'.digits c (List.mem_of_mem_take hc)) hh
  have hminute := digitsValue_inj (by simp only [List.length_take, List.length_drop]; omega)
    (fun c hc ↦ h.digits c (List.mem_of_mem_drop (List.mem_of_mem_take hc)))
    (fun c hc ↦ h'.digits c (List.mem_of_mem_drop (List.mem_of_mem_take hc))) hm
  have hsplit : ∀ cs : List Char, cs = cs.take 2 ++ ((cs.drop 2).take 2 ++ cs.drop 4) := by
    intro cs
    rw [← List.drop_drop (i := 2) (j := 2), List.take_append_drop, List.take_append_drop]
  have hdigits : ∀ c ∈ time.toList.drop 4, c.isDigit = true := fun c hc ↦
    h.digits c (List.mem_of_mem_drop hc)
  have hdigits' : ∀ c ∈ time'.toList.drop 4, c.isDigit = true := fun c hc ↦
    h'.digits c (List.mem_of_mem_drop hc)
  obtain heq | hlt := Nat.eq_or_lt_of_le hle
  · left
    have hsecond := digitsValue_inj (by simp only [List.length_drop]; omega) hdigits hdigits' hs
    refine String.toList_inj.1 ?_
    rw [hsplit time.toList, hsplit time'.toList, hhour, hminute, hsecond]
  · right
    have hnil : time.toList.drop 4 = [] := List.drop_eq_nil_of_le (by omega)
    have hzero : time'.toList.drop 4 = ['0', '0'] := by
      refine digitsValue_inj ?_ hdigits' (forall_mem_of_all (by decide)) ?_
      · rw [List.length_drop]
        simp only [List.length_cons, List.length_nil]
        omega
      · rw [← hs, hnil]
        rfl
    refine String.toList_inj.1 ?_
    rw [String.toList_append, hsplit time'.toList, ← hhour, ← hminute, hzero]
    conv_rhs => rw [hsplit time.toList, hnil, List.append_nil]
    rw [List.append_assoc]
    rfl

omit [UnicodeData] in
/-- **One instant, one text**, up to seconds that are left out. -/
theorem adifDatetime_inj {date' time' : String} {dt : DateTime} (h : AdifDatetime date time dt)
    (h' : AdifDatetime date' time' dt) :
    date = date' ∧ (time = time' ∨ time = time' ++ "00" ∨ time' = time ++ "00") := by
  obtain ⟨day, seconds, hdate, htime, rfl⟩ := h
  obtain ⟨day', seconds', hdate', htime', heq⟩ := h'
  have hlt := adifTime_lt htime
  have hlt' := adifTime_lt htime'
  rw [combineUtc, combineUtc, DateTime.mk.injEq] at heq
  obtain ⟨rfl, rfl⟩ : day = day' ∧ seconds = seconds' := by omega
  refine ⟨adifDate_inj hdate hdate', ?_⟩
  obtain hle | hle := Nat.le_total time.length time'.length
  · exact (adifTime_inj htime htime' hle).elim (fun h ↦ .inl h.symm) fun h ↦ .inr (.inr h)
  · exact (adifTime_inj htime' htime hle).elim .inl fun h ↦ .inr (.inl h)

/-- Whether `parse_adif_datetime` takes a date and a time if ADIF does, and reads them as it does. -/
def ParsesAdif (date time : String) : Prop :=
  ∀ dt, parseAdifDatetime (.str date) (.str time) = .ok dt ↔ AdifDatetime date time dt

/-- **When the grammar is that of ADIF**: for eight digits and digits, and for what is refused. -/
theorem parsesAdif_iff : ParsesAdif date time ↔ (LooseDate date → LooseTime time →
    date.length = 8 ∧ (∀ c ∈ date.toList, c.isDigit = true) ∧
      ∀ c ∈ time.toList, c.isDigit = true) := by
  constructor
  · intro h hdate htime
    obtain ⟨day, hday⟩ := exists_strptimeDate_iff.2 hdate
    obtain ⟨seconds, hseconds⟩ := exists_parseAdifTime_iff.2 htime
    have hok := parseAdifDatetime_iff.2 ⟨day, seconds, hday, hseconds, rfl⟩
    exact (adifDatetime_iff.1 ((h _).1 hok)).2
  · intro h dt
    refine ⟨fun hok ↦ adifDatetime_iff.2 ⟨hok, ?_⟩, fun hadif ↦ (adifDatetime_iff.1 hadif).1⟩
    obtain ⟨day, seconds, hday, hseconds, -⟩ := parseAdifDatetime_iff.1 hok
    exact h (looseDate_of_ok hday) (exists_parseAdifTime_iff.1 ⟨_, hseconds⟩)

/-- **The dates and times of ADIF**: when no others are taken, and what they write then. -/
theorem parseAdifDatetime_exact_iff :
    (∀ date time : String, ParsesAdif date time ↔ (LooseDate date → LooseTime time →
      date.length = 8 ∧ (∀ c ∈ date.toList, c.isDigit = true) ∧
        ∀ c ∈ time.toList, c.isDigit = true)) ∧
    ∀ date time date' time' : String, ∀ dt, ParsesAdif date time → ParsesAdif date' time' →
      parseAdifDatetime (.str date) (.str time) = .ok dt →
      parseAdifDatetime (.str date') (.str time') = .ok dt →
      date = date' ∧ (time = time' ∨ time = time' ++ "00" ∨ time' = time ++ "00") :=
  ⟨fun _ _ ↦ parsesAdif_iff, fun _ _ _ _ dt h h' hok hok' ↦
    adifDatetime_inj ((h dt).1 hok) ((h' dt).1 hok')⟩

end

attribute [local instance] UnicodeData.ascii

theorem parsesAdif_eight : ParsesAdif "20241101" "1200" :=
  (parseAdifDatetime_exact_iff.1 _ _).2 fun _ _ ↦
    ⟨by decide, forall_mem_of_all (by decide), forall_mem_of_all (by decide)⟩

/-- A date of seven digits. -/
theorem not_parsesAdif_seven : ¬ ParsesAdif "2024111" "1200" := by
  intro h
  have hok : parseAdifDatetime (.str "2024111") (.str "1200") =
      .ok (combineUtc (dayNumber 2024 11 1) 43200) := by rfl
  obtain ⟨_, _, hdate, -⟩ := (h _).1 hok
  exact absurd hdate.length (by decide)

end Ollog

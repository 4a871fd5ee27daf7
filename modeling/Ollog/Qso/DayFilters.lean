import Ollog.Qso.AdifDatetime
import Ollog.Qso.Listing

/-!
# Listing the QSOs of some days

Both the REST list and the log view take a first and a last day.  Each makes two instants of them,
which bound `qso_date_utc` in the query they have in common.  The log view ends the last day with
its last second, the REST list with its last minute: a QSO within that minute, which the log view
shows, is missing there (`dayFilters_iff`).
-/

set_option autoImplicit false

namespace Ollog

open Effects

section

variable [UnicodeData] [QueryEngine]

/-! ## The two listings -/

/-- A date parameter of the log view, at a second of the day.  What is not a date is ignored. -/
def viewDate (date : Option String) (seconds : Nat) : Option DateTime :=
  match givenParam date with
  | none => none
  | some text =>
    match strptimeDate text with
    | .ok day => some (combineUtc day seconds)
    | .error _ => none

/-- The query parameters of `GET /log/view`. -/
structure ViewParams extends ListParams where
  pageSize_le_view : pageSize ≤ 200 := by decide

/-- What `log_view` shows: the QSOs of the page, and how many there are. -/
def logView {m : Type → Type} [Monad m] [MonadExceptOf PyErr m] [MonadLiftT Db m] (env : Env)
    (params : ViewParams) (user : User) : m (List QSO × Nat) :=
  getQsoPage env user.callsign params.toListParams (viewDate params.dateFrom 0)
    (viewDate params.dateTo 86399)

/-- The documents `list_qsos` selects. -/
def restListed (operator : String) (params : ListParams) (docs : List Doc) :
    Except PyErr (List Doc) := do
  let dateFrom ← dateParam params.dateFrom "0000"
  let dateTo ← dateParam params.dateTo "2359"
  listed operator params dateFrom dateTo docs

/-- The documents `log_view` selects. -/
def viewListed (operator : String) (params : ListParams) (docs : List Doc) :
    Except PyErr (List Doc) :=
  listed operator params (viewDate params.dateFrom 0) (viewDate params.dateTo 86399) docs

variable {c c' : Collection} {env : Env} {user : User}

/-- What `list_qsos` says of the documents it selects. -/
theorem listQsos_listed {params : ListParams} {page : QSOPage}
    (h : (listQsos env params user : Db _) c = .ok page c') :
    c' = c ∧ ∃ docs items, restListed user.callsign params c.docs = .ok docs ∧
      page.total = docs.length ∧ page.items = items.map qsoToDict ∧
      (((QueryEngine.sorted (mongoSort params.sort).1 (mongoSort params.sort).2 docs).drop
        ((params.page - 1) * params.pageSize)).take params.pageSize).mapM
          (qsoFromMongoDoc env.now) = .ok items := by
  have hlist : (listQsos env params user : Db _) = (do
      let dateFrom ← ofExcept (dateParam params.dateFrom "0000")
      let dateTo ← ofExcept (dateParam params.dateTo "2359")
      let result ← getQsoPage env user.callsign params dateFrom dateTo
      return { items := result.1.map qsoToDict, total := result.2, page := params.page,
               pageSize := params.pageSize }) := rfl
  rw [hlist] at h
  obtain ⟨dateFrom, c₁, hfrom, h⟩ := run_bind_eq_ok.1 h
  obtain ⟨dateTo, c₂, hto, h⟩ := run_bind_eq_ok.1 h
  obtain ⟨⟨items, total⟩, c₃, hpage, h⟩ := run_bind_eq_ok.1 h
  cases h
  obtain ⟨hdateFrom, rfl⟩ := run_ofExcept_eq_ok.1 hfrom
  obtain ⟨hdateTo, rfl⟩ := run_ofExcept_eq_ok.1 hto
  obtain ⟨hc, -, docs, hlisted, htotal, hitems⟩ := getQsoPage_listed hpage
  refine ⟨hc, docs, items, ?_, htotal, rfl, hitems⟩
  rw [restListed, hdateFrom, hdateTo]
  exact hlisted

/-! ## The last minute of a day -/

/-- The documents that are dated on one of some days. -/
def fallsOn (first last : Nat) (d : Doc) : Bool :=
  match d["qso_date_utc"]? with
  | some (.datetime dt) =>
    decide (first * dayMicros ≤ dt.utc) && decide (dt.utc < (last + 1) * dayMicros)
  | _ => false

/-- A log whose active QSOs are dated to the second. -/
def SecondResolution (operator : String) (docs : List Doc) : Prop :=
  ∀ d ∈ docs, activeQuery operator d = true →
    ∃ dt, d["qso_date_utc"]? = some (.datetime dt) ∧ dt.utc % 1000000 = 0

/-- A listing of days, with no other filter. -/
structure OfDays (params : ListParams) (dateFrom dateTo : String) : Prop where
  call : params.call = none
  band : params.band = none
  mode : params.mode = none
  dateFrom : params.dateFrom = some dateFrom
  dateTo : params.dateTo = some dateTo

omit [UnicodeData] [QueryEngine] in
theorem utc_toStored_combineUtc {day seconds : Nat} :
    (combineUtc day seconds).toStored.utc = ((day * 86400 + seconds : Nat) : Int) * 1000000 := by
  rw [DateTime.utc_toStored (combineUtc_utc_mod day seconds)]
  simp only [combineUtc, DateTime.utc, Option.getD_some, sub_zero]

omit [UnicodeData] in
/-- The query of a listing of days. -/
theorem listed_ofDays {params : ListParams} {first last operator : String} {docs : List Doc}
    {dayFrom dayTo seconds : Nat} (h : OfDays params first last) :
    listed operator params (some (combineUtc dayFrom 0)) (some (combineUtc dayTo seconds)) docs =
      .ok (docs.filter fun d ↦ activeQuery operator d &&
        (Doc.fieldMatches d "qso_date_utc" (atLeast (combineUtc dayFrom 0)) &&
          Doc.fieldMatches d "qso_date_utc" (atMost (combineUtc dayTo seconds)))) := by
  rw [listed, pageQuery, callFilter, h.call]
  refine congrArg Except.ok (List.filter_congr fun d _ ↦ ?_)
  have hband : valueFilter "BAND" params.band d = true := by
    rw [h.band]
    rfl
  have hmode : valueFilter "MODE" params.mode d = true := by
    rw [h.mode]
    rfl
  rw [hband, hmode, Bool.true_and, Bool.true_and, Bool.true_and]
  rfl

omit [UnicodeData] [QueryEngine] in
/-- What a bound by the second of the last day makes of a document dated to the second. -/
theorem matches_iff_fallsOn {dayFrom dayTo : Nat} {d : Doc} {dt : DateTime}
    (hdt : d["qso_date_utc"]? = some (.datetime dt)) (hres : dt.utc % 1000000 = 0) (seconds : Nat) :
    (Doc.fieldMatches d "qso_date_utc" (atLeast (combineUtc dayFrom 0)) &&
        Doc.fieldMatches d "qso_date_utc" (atMost (combineUtc dayTo seconds))) = true ↔
      (dayFrom : Int) * dayMicros ≤ dt.utc ∧
        dt.utc ≤ dayTo * dayMicros + seconds * 1000000 := by
  rw [Bool.and_eq_true]
  simp only [Doc.fieldMatches, hdt, atLeast, atMost, decide_eq_true_iff, utc_toStored_combineUtc, dayMicros]
  omega

omit [QueryEngine] in
/-- A time of day at which the REST list begins or ends a day. -/
theorem parseAdifDatetime_of_adif {date time : String} {day seconds : Nat}
    (hdate : AdifDate date day) (htime : AdifTime time seconds) :
    parseAdifDatetime (.str date) (.str time) = .ok (combineUtc day seconds) :=
  (adifDatetime_iff.1 ⟨day, seconds, hdate, htime, rfl⟩).1

omit [UnicodeData] [QueryEngine] in
theorem givenParam_of_adif {date : String} {day : Nat} (h : AdifDate date day) :
    givenParam (some date) = some date := by
  refine Option.filter_some_pos ?_
  have hne : date ≠ "" := by
    rintro rfl
    exact absurd h.length (by decide)
  simpa using hne

omit [QueryEngine] in
theorem viewDate_of_adif {date : String} {day : Nat} (h : AdifDate date day) (seconds : Nat) :
    viewDate (some date) seconds = some (combineUtc day seconds) := by
  rw [viewDate, givenParam_of_adif h]
  dsimp only
  rw [(adifDate_iff.1 h).1]

theorem viewListed_ofDays {params : ListParams} {operator first last : String} {docs : List Doc}
    {n₁ n₂ : Nat} (hfirst : AdifDate first n₁) (hlast : AdifDate last n₂)
    (hparams : OfDays params first last) :
    viewListed operator params docs = listed operator params (some (combineUtc n₁ 0))
      (some (combineUtc n₂ 86399)) docs := by
  rw [viewListed, hparams.dateFrom, hparams.dateTo, viewDate_of_adif hfirst,
    viewDate_of_adif hlast]

theorem restListed_ofDays {params : ListParams} {operator first last : String} {docs : List Doc}
    {n₁ n₂ : Nat} (hfirst : AdifDate first n₁) (hlast : AdifDate last n₂)
    (hparams : OfDays params first last) :
    restListed operator params docs = listed operator params (some (combineUtc n₁ 0))
      (some (combineUtc n₂ 86340)) docs := by
  have hmidnight : AdifTime "0000" 0 :=
    ⟨by decide, forall_mem_of_all (by decide), by decide, by decide, by decide, by decide⟩
  have hlastMinute : AdifTime "2359" 86340 :=
    ⟨by decide, forall_mem_of_all (by decide), by decide, by decide, by decide, by decide⟩
  rw [restListed, hparams.dateFrom, hparams.dateTo, dateParam, dateParam,
    givenParam_of_adif hfirst, givenParam_of_adif hlast]
  dsimp only
  rw [parseAdifDatetime_of_adif hfirst hmidnight, parseAdifDatetime_of_adif hlast hlastMinute]
  rfl

omit [UnicodeData] [QueryEngine] in
theorem fallsOn_iff {first last : Nat} {d : Doc} : fallsOn first last d = true ↔
    ∃ dt, d["qso_date_utc"]? = some (.datetime dt) ∧ first * dayMicros ≤ dt.utc ∧
      dt.utc < (last + 1) * dayMicros := by
  rw [fallsOn]
  split
  · rename_i dt hdt
    rw [Bool.and_eq_true, decide_eq_true_iff, decide_eq_true_iff, hdt]
    simp
  · rename_i hno
    refine ⟨fun h ↦ (by cases h), ?_⟩
    rintro ⟨dt, hdt, -⟩
    exact absurd hdt (hno dt)

omit [UnicodeData] [QueryEngine] in
/-- Whether a document falls on some days, or on the days after those. -/
theorem fallsOn_append {n₁ n₂ n₃ : Nat} (h₁ : n₁ ≤ n₂) (h₂ : n₂ < n₃) (d : Doc) :
    (fallsOn n₁ n₃ d = true ↔ fallsOn n₁ n₂ d = true ∨ fallsOn (n₂ + 1) n₃ d = true) ∧
      ¬ (fallsOn n₁ n₂ d = true ∧ fallsOn (n₂ + 1) n₃ d = true) := by
  rw [fallsOn_iff, fallsOn_iff, fallsOn_iff, ← exists_or]
  constructor
  · refine exists_congr fun dt ↦ ?_
    rw [← and_or_left]
    refine and_congr_right fun _ ↦ ?_
    simp only [dayMicros]
    omega
  · rintro ⟨⟨dt, hdt, -, hbefore⟩, dt', hdt', hafter, -⟩
    obtain rfl := Value.datetime.inj (Option.some.inj (hdt.symm.trans hdt'))
    simp only [dayMicros] at hbefore hafter
    omega

/-- **The listings of days**: when the REST list shows what the log view shows, which is what is
dated on these days. -/
theorem dayFilters_iff {params : ViewParams} {operator first last : String} {docs : List Doc}
    {n₁ n₂ : Nat} (hfirst : AdifDate first n₁) (hlast : AdifDate last n₂) (hle : n₁ ≤ n₂)
    (hparams : OfDays params.toListParams first last) (hres : SecondResolution operator docs) :
    ((restListed operator params.toListParams docs = viewListed operator params.toListParams docs ∧
      viewListed operator params.toListParams docs =
        .ok (docs.filter fun d ↦ activeQuery operator d && fallsOn n₁ n₂ d)) ↔
      ∀ d ∈ docs, activeQuery operator d = true → ∀ dt, d["qso_date_utc"]? = some (.datetime dt) →
        ¬ (n₂ * dayMicros + 86340 * 1000000 < dt.utc ∧ dt.utc < (n₂ + 1) * dayMicros)) ∧
    ∀ n₃, n₂ < n₃ → ∀ d,
      (fallsOn n₁ n₃ d = true ↔ fallsOn n₁ n₂ d = true ∨ fallsOn (n₂ + 1) n₃ d = true) ∧
        ¬ (fallsOn n₁ n₂ d = true ∧ fallsOn (n₂ + 1) n₃ d = true) := by
  refine ⟨?_, fun n₃ hlt d ↦ fallsOn_append hle hlt d⟩
  rw [restListed_ofDays hfirst hlast hparams, viewListed_ofDays hfirst hlast hparams,
    listed_ofDays hparams, listed_ofDays hparams]
  have hfalls : ∀ {d : Doc} {dt : DateTime}, d["qso_date_utc"]? = some (.datetime dt) →
      (fallsOn n₁ n₂ d = true ↔ n₁ * dayMicros ≤ dt.utc ∧ dt.utc < (n₂ + 1) * dayMicros) := by
    intro d dt hdt
    rw [fallsOn_iff, hdt]
    simp
  -- The log view is exact whatever is in the log.
  have hview : (docs.filter fun d ↦ activeQuery operator d &&
      (Doc.fieldMatches d "qso_date_utc" (atLeast (combineUtc n₁ 0)) &&
        Doc.fieldMatches d "qso_date_utc" (atMost (combineUtc n₂ 86399)))) =
      docs.filter fun d ↦ activeQuery operator d && fallsOn n₁ n₂ d := by
    refine List.filter_congr fun d hd ↦ ?_
    cases hactive : activeQuery operator d with
    | false => rfl
    | true =>
      obtain ⟨dt, hdt, hsecond⟩ := hres d hd hactive
      rw [Bool.true_and, Bool.true_and, Bool.eq_iff_iff, matches_iff_fallsOn hdt hsecond,
        hfalls hdt]
      simp only [dayMicros]
      omega
  rw [hview, and_iff_left rfl, Except.ok.injEq]
  constructor
  · intro hsame d hd hactive dt hdt ⟨hlate, hend⟩
    obtain ⟨dt', hdt', hsecond⟩ := hres d hd hactive
    obtain rfl : dt' = dt := by
      rw [hdt] at hdt'
      exact (Value.datetime.inj (Option.some.inj hdt')).symm
    have hfallsOn : fallsOn n₁ n₂ d = true := by
      rw [hfalls hdt]
      simp only [dayMicros] at hlate hend ⊢
      omega
    have hmem : d ∈ docs.filter fun d ↦ activeQuery operator d && fallsOn n₁ n₂ d :=
      List.mem_filter.2 ⟨hd, by rw [hactive, hfallsOn]; rfl⟩
    rw [← hsame, List.mem_filter, hactive, Bool.true_and, matches_iff_fallsOn hdt hsecond] at hmem
    simp only [dayMicros] at hlate hmem
    omega
  · intro hearly
    refine List.filter_congr fun d hd ↦ ?_
    cases hactive : activeQuery operator d with
    | false => rfl
    | true =>
      obtain ⟨dt, hdt, hsecond⟩ := hres d hd hactive
      have hnot := hearly d hd hactive dt hdt
      rw [Bool.true_and, Bool.true_and, Bool.eq_iff_iff, matches_iff_fallsOn hdt hsecond,
        hfalls hdt]
      simp only [dayMicros] at hnot ⊢
      omega

end

/-! ## A QSO just before midnight -/

section

attribute [local instance] UnicodeData.ascii QueryEngine.unsorted

/-- A QSO of 2024-01-01 at a second of the day. -/
def qsoAt (seconds : Nat) : Doc :=
  (((∅ : Doc).insert "_operator" (.str "W1AW")).insert "_deleted" (.bool false)).insert
    "qso_date_utc" (.datetime (combineUtc (dayNumber 2024 1 1) seconds))

/-- A listing of 2024-01-01. -/
def newYear : ViewParams where
  dateFrom := some "20240101"
  dateTo := some "20240101"

/-- The REST list misses it, the log view does not. -/
theorem not_dayFilters_lastMinute :
    restListed "W1AW" newYear.toListParams [qsoAt 86370] = .ok [] ∧
      viewListed "W1AW" newYear.toListParams [qsoAt 86370] = .ok [qsoAt 86370] := by
  decide +kernel

theorem dayFilters_noon :
    restListed "W1AW" newYear.toListParams [qsoAt 43200] =
      viewListed "W1AW" newYear.toListParams [qsoAt 43200] := by
  have hdate : AdifDate "20240101" (dayNumber 2024 1 1) :=
    ⟨by decide, forall_mem_of_all (by decide), by decide, by decide⟩
  have hget : (qsoAt 43200)["qso_date_utc"]? =
      some (.datetime (combineUtc (dayNumber 2024 1 1) 43200)) := by
    rw [qsoAt, Doc.getElem?_insert, if_pos rfl]
  refine ((@dayFilters_iff _ _ _ "W1AW" _ _ [qsoAt 43200] _ _ hdate hdate (Nat.le_refl _)
    ⟨rfl, rfl, rfl, rfl, rfl⟩ ?_).1.2 ?_).1
  · intro d hd _
    rw [List.mem_singleton.1 hd]
    exact ⟨_, hget, by decide⟩
  · intro d hd _ dt hdt
    rw [List.mem_singleton.1 hd, hget] at hdt
    obtain rfl := Value.datetime.inj (Option.some.inj hdt)
    decide

end

end Ollog

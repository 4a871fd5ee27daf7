import Ollog.InternalLogs.Service

/-!
# The settings of the log

A log call ought to treat its entry as the stored settings say.  It goes by the copy that its
process has of them, if it has one when the call begins, and looks them up otherwise.
`CacheAgrees` is what the copy has to be like: `obeys_iff` says that a log call obeys the settings,
whatever other calls do while it runs, if and only if that is so when it begins.

A copy goes out of date when another process changes the settings.  It does so as well when the
process itself changes them while one of its own calls has read the old ones and has yet to put them
into the copy.  `cacheAgrees_of_own` says that there is no third way.
-/

set_option autoImplicit false

namespace Ollog

open Effects

variable {ρ ι : Type}

/-! ## What the settings ask for -/

/-- The entries that a log call is to store, by these settings. -/
def entriesDue (utcnow : Int) (call : LogCall) (level : LogLevel) (settings : LogSettingsSnapshot) :
    List ApplicationLog :=
  if settings.minimumLevel.severity ≤ level.severity then
    [applicationLog utcnow level call settings.retentionDays]
  else []

/-- **What a process has to know**: its copy of the settings, if it has one, lets the level through
if and only if the stored settings do, and has their retention if they do. -/
def CacheAgrees (s : LogDeployment ρ) (p : ρ) (level : LogLevel) : Prop :=
  ∀ cached, s.cache p = some cached →
    shouldLog level cached.minimumLevel = shouldLog level s.stored.minimumLevel ∧
      (shouldLog level s.stored.minimumLevel = true →
        cached.retentionDays = s.stored.retentionDays)

theorem retentionDays_of_applicationLog_eq {utcnow : Int} {call : LogCall} {level : LogLevel}
    {r r' : LogSettingsSnapshot}
    (h : applicationLog utcnow level call r.retentionDays =
      applicationLog utcnow level call r'.retentionDays) : r.retentionDays = r'.retentionDays := by
  have hexpires := congrArg ApplicationLog.expiresAt h
  have hr := r.one_le
  have hr' := r'.one_le
  simp only [applicationLog, expiresAtForRetention, daysMicros, max_eq_right hr,
    max_eq_right hr', dayMicros] at hexpires
  omega

/-- Settings ask for the same if and only if they agree on the level, and on the retention where it
matters. -/
theorem entriesDue_eq_iff {utcnow : Int} {call : LogCall} {level : LogLevel}
    {r r' : LogSettingsSnapshot} :
    entriesDue utcnow call level r = entriesDue utcnow call level r' ↔
      shouldLog level r.minimumLevel = shouldLog level r'.minimumLevel ∧
        (shouldLog level r'.minimumLevel = true → r.retentionDays = r'.retentionDays) := by
  rw [entriesDue, entriesDue]
  simp only [← shouldLog_iff]
  cases shouldLog level r.minimumLevel <;> cases shouldLog level r'.minimumLevel
  · simp
  · simp
  · simp
  · simp only [if_true, true_and, true_imp_iff, List.cons.injEq, and_true]
    exact ⟨retentionDays_of_applicationLog_eq, fun h ↦ by rw [h]⟩

section

variable [DecidableEq ι] [DecidableEq ρ] [UnicodeData]

/-- A log call that is not forced, and is about to begin when a change of the settings has
completed. -/
structure LogCallBegins (requests : ι → LogRequest ρ) (s : LogState ι ρ) (i : ι) (p : ρ)
    (utcnow : Int) (call : LogCall) (level : LogLevel) : Prop where
  request : requests i = .log p utcnow call
  begins : s.threads i = .begin
  changed : ∃ j settings, s.threads j = .finished (.saved settings)
  unforced : call.force = false
  level : normalizeLogLevel call.level = .ok level

/-- **A log call obeys the stored settings**: when it has finished, it has stored what the settings
ask for that were stored at some moment of the call. -/
def Obeys (requests : ι → LogRequest ρ) (s : LogState ι ρ) (i : ι) (utcnow : Int) (call : LogCall)
    (level : LogLevel) (schedule : List ι) : Prop :=
  ∀ answer, (run (logStep requests) s schedule).threads i = .finished answer →
    ∃ before, before <+: schedule ∧ Outbox.itemsOf i (entriesStored requests s schedule) =
      entriesDue utcnow call level (run (logStep requests) s before).store.stored

/-! ## The course of a log call -/

variable {requests : ι → LogRequest ρ} {s : LogState ι ρ} {i : ι} {p : ρ} {utcnow : Int}
  {call : LogCall} {level : LogLevel}

omit [DecidableEq ι] [DecidableEq ρ] [UnicodeData] in
/-- Where a log call is, and what it has stored so far, if what it goes by is among the settings that
have been `Seen` in the database. -/
inductive OnCourse (Seen : Option LogSettingsSnapshot → Prop) (utcnow : Int) (call : LogCall)
    (level : LogLevel) : LogPhase → List ApplicationLog → Prop where
  | lookUp : OnCourse Seen utcnow call level .lookUp []
  | found {settings : Option LogSettingsSnapshot} (h : Seen settings) :
      OnCourse Seen utcnow call level (.found settings) []
  | insert {settings : Option LogSettingsSnapshot} {entry : ApplicationLog} (h : Seen settings)
      (hdue : entriesDue utcnow call level (settings.getD {}) = [entry]) :
      OnCourse Seen utcnow call level (.insert entry) []
  | broadcast {settings : Option LogSettingsSnapshot} {entry : ApplicationLog} (h : Seen settings)
      (hdue : entriesDue utcnow call level (settings.getD {}) = [entry]) :
      OnCourse Seen utcnow call level (.broadcast entry) [entry]
  | finished {settings : Option LogSettingsSnapshot} {items : List ApplicationLog} (h : Seen settings)
      (hdue : entriesDue utcnow call level (settings.getD {}) = items) (answer : LogAnswer) :
      OnCourse Seen utcnow call level (.finished answer) items

variable {Seen Seen' : Option LogSettingsSnapshot → Prop} {phase : LogPhase}
  {items : List ApplicationLog}

omit [DecidableEq ι] [DecidableEq ρ] [UnicodeData] in
theorem OnCourse.mono (h : OnCourse Seen utcnow call level phase items)
    (hsub : ∀ settings, Seen settings → Seen' settings) :
    OnCourse Seen' utcnow call level phase items := by
  cases h with
  | lookUp => exact .lookUp
  | found hseen => exact .found (hsub _ hseen)
  | insert hseen hdue => exact .insert (hsub _ hseen) hdue
  | broadcast hseen hdue => exact .broadcast (hsub _ hseen) hdue
  | finished hseen hdue answer => exact .finished (hsub _ hseen) hdue answer

omit [DecidableEq ι] [DecidableEq ρ] in
theorem withSettings_log (hlevel : normalizeLogLevel call.level = .ok level)
    (hforce : call.force = false) (settings : LogSettingsSnapshot) :
    LogRequest.withSettings settings (.log p utcnow call) =
      if settings.minimumLevel.severity ≤ level.severity then
        .insert (applicationLog utcnow level call settings.retentionDays)
      else .finished (.entry none) := by
  rw [LogRequest.withSettings, hlevel, hforce]
  dsimp only
  cases hshould : shouldLog level settings.minimumLevel with
  | true => rw [if_pos (shouldLog_iff.1 hshould)]; rfl
  | false =>
    rw [if_neg fun h ↦ Bool.false_ne_true (hshould.symm.trans (shouldLog_iff.2 h))]
    rfl

omit [DecidableEq ι] [DecidableEq ρ] in
/-- A log call goes by the settings that it has. -/
theorem onCourse_withSettings (hlevel : normalizeLogLevel call.level = .ok level)
    (hforce : call.force = false) {settings : LogSettingsSnapshot}
    {stored : Option LogSettingsSnapshot} (hseen : Seen stored)
    (hsame : entriesDue utcnow call level settings =
      entriesDue utcnow call level (stored.getD {})) :
    OnCourse Seen utcnow call level (LogRequest.withSettings settings (.log p utcnow call)) [] := by
  rw [withSettings_log hlevel hforce]
  rw [entriesDue] at hsame
  by_cases hshould : settings.minimumLevel.severity ≤ level.severity
  · rw [if_pos hshould] at hsame ⊢
    exact .insert hseen hsame.symm
  · rw [if_neg hshould] at hsame ⊢
    exact .finished hseen hsame.symm _

omit [DecidableEq ι] in
/-- **One step of a log call** keeps it on course. -/
theorem OnCourse.advance (hlevel : normalizeLogLevel call.level = .ok level)
    (hforce : call.force = false) (h : OnCourse Seen utcnow call level phase items)
    {store : LogDeployment ρ} (hseen : Seen store.settings) :
    OnCourse Seen utcnow call level (LogRequest.advance (.log p utcnow call) phase store).1
      (items ++ phase.storing.toList) := by
  cases h with
  | lookUp => exact .found hseen
  | found hfound =>
    rw [LogRequest.advance, LogPhase.storing]
    dsimp only [Option.toList_none, List.append_nil]
    exact onCourse_withSettings hlevel hforce hfound rfl
  | insert hinsert hdue => exact .broadcast hinsert hdue
  | broadcast hbroadcast hdue => exact .finished hbroadcast hdue _
  | finished hfinished hdue answer =>
    exact .finished hfinished (hdue.trans (List.append_nil _).symm) answer

/-- The settings that are stored at some moment of a schedule. -/
def SeenIn (requests : ι → LogRequest ρ) (s : LogState ι ρ) (schedule : List ι)
    (settings : Option LogSettingsSnapshot) : Prop :=
  ∃ before, before <+: schedule ∧ (run (logStep requests) s before).store.settings = settings

/-- **A whole log call**: if its first step keeps it on course, it stays on it. -/
theorem onCourse_run (hrequest : requests i = .log p utcnow call)
    (hlevel : normalizeLogLevel call.level = .ok level) (hforce : call.force = false)
    (hfirst : OnCourse (SeenIn requests s []) utcnow call level
      ((logStep requests s i).threads i) (Outbox.itemsOf i (storedAt s i).toList))
    (rest : List ι) :
    OnCourse (SeenIn requests s (i :: rest)) utcnow call level
      ((run (logStep requests) s (i :: rest)).threads i)
      (Outbox.itemsOf i (entriesStored requests s (i :: rest))) := by
  induction rest using List.reverseRecOn with
  | nil =>
    rw [entriesStored, Outbox.along, Outbox.along, List.append_nil]
    refine hfirst.mono ?_
    rintro settings ⟨before, hbefore, hsettings⟩
    exact ⟨before, hbefore.trans List.nil_prefix, hsettings⟩
  | append_singleton rest j ih =>
    have hmore : ∀ settings, SeenIn requests s (i :: rest) settings →
        SeenIn requests s (i :: rest ++ [j]) settings := by
      rintro settings ⟨before, hbefore, hsettings⟩
      exact ⟨before, hbefore.trans (List.prefix_append ..), hsettings⟩
    have hnow : SeenIn requests s (i :: rest ++ [j])
        (run (logStep requests) s (i :: rest)).store.settings :=
      ⟨i :: rest, List.prefix_append .., rfl⟩
    have hstored : entriesStored requests s (i :: rest ++ [j]) =
        entriesStored requests s (i :: rest) ++
        (storedAt (run (logStep requests) s (i :: rest)) j).toList := by
      rw [entriesStored, Outbox.along_append]
      exact congrArg _ (List.append_nil _)
    rw [← List.cons_append, hstored, Outbox.itemsOf_append, run_append]
    set t := run (logStep requests) s (i :: rest)
    rw [run_cons, run_nil, logStep]
    by_cases hj : j = i
    · subst hj
      rw [Pool.threads_step_self, hrequest, storedAt]
      have hstep := (ih.mono hmore).advance (p := p) hlevel hforce hnow
      cases hstoring : (t.threads j).storing with
      | none => rwa [hstoring] at hstep
      | some entry => simpa [hstoring] using hstep
    · rw [Pool.threads_step_of_ne (Ne.symm hj), storedAt]
      have hnone : Outbox.itemsOf i ((t.threads j).storing.map (j, ·)).toList = [] := by
        cases (t.threads j).storing <;> simp [hj]
      rw [hnone, List.append_nil]
      exact ih.mono hmore

/-! ## One log call -/

/-- A log call that begins goes by the copy of its process, or looks the settings up. -/
theorem begins_log (h : LogCallBegins requests s i p utcnow call level) :
    (logStep requests s i).threads i = (match s.store.cache p with
      | some cached => LogRequest.withSettings cached (.log p utcnow call)
      | none => .lookUp) ∧
    (logStep requests s i).store = s.store ∧ storedAt s i = none := by
  rw [logStep, Pool.threads_step_self, Pool.store_step, storedAt, h.begins, h.request,
    LogRequest.advance, LogRequest.begins]
  dsimp only
  rw [h.level]
  exact ⟨rfl, rfl, rfl⟩

/-- A log call that is about to store its entry stores it and finishes with it. -/
theorem log_insert {entry : ApplicationLog} (h : s.threads i = .insert entry) :
    (run (logStep requests) s [i, i]).threads i = .finished (.entry (some entry)) ∧
      Outbox.itemsOf i (entriesStored requests s [i, i]) = [entry] ∧
      ∀ before, before <+: [i, i] →
        (run (logStep requests) s before).store.settings = s.store.settings := by
  have hone : (logStep requests s i).threads i = .broadcast entry := by
    rw [logStep, Pool.threads_step_self, h, LogRequest.advance]
  have hkept : (logStep requests s i).store.settings = s.store.settings := by
    rw [logStep, Pool.store_step, h, LogRequest.advance]
  have htwo : logStep requests (logStep requests s i) i =
      Pool.step (fun i ↦ (requests i).advance) (logStep requests s i) i := rfl
  refine ⟨?_, ?_, fun before hbefore ↦ ?_⟩
  · rw [run_cons, run_cons, run_nil, htwo, Pool.threads_step_self, hone, LogRequest.advance]
  · rw [entriesStored, Outbox.along, Outbox.along, Outbox.along, storedAt, storedAt, h, hone]
    simp [LogPhase.storing]
  · have hcases : before = [] ∨ before = [i] ∨ before = [i, i] := by
      simpa using (List.mem_inits _ _).2 hbefore
    rcases hcases with rfl | rfl | rfl
    · rfl
    · exact hkept
    · rw [run_cons, run_cons, run_nil, htwo, Pool.store_step, hone, LogRequest.advance]
      exact hkept

/-- **A log call on its own** stores what the copy of its process asks for, and changes no
settings. -/
theorem log_alone (h : LogCallBegins requests s i p utcnow call level)
    {cached : LogSettingsSnapshot} (hcached : s.store.cache p = some cached) :
    ∃ schedule, (∃ answer,
      (run (logStep requests) s (i :: schedule)).threads i = .finished answer) ∧
      Outbox.itemsOf i (entriesStored requests s (i :: schedule)) =
        entriesDue utcnow call level cached ∧
      ∀ before, before <+: i :: schedule →
        (run (logStep requests) s before).store.settings = s.store.settings := by
  obtain ⟨hfirst, hstore, hnone⟩ := begins_log h
  rw [hcached] at hfirst
  dsimp only at hfirst
  rw [withSettings_log h.level h.unforced] at hfirst
  rw [entriesDue]
  by_cases hshould : cached.minimumLevel.severity ≤ level.severity
  · rw [if_pos hshould] at hfirst ⊢
    obtain ⟨hthread, hitems, hkept⟩ : _ ∧ _ ∧ _ := log_insert hfirst
    refine ⟨[i, i], ⟨_, hthread⟩, ?_, fun before hbefore ↦ ?_⟩
    · rw [entriesStored, Outbox.along, hnone]
      exact hitems
    · cases before with
      | nil => rfl
      | cons j before =>
        obtain ⟨rfl, hrest⟩ := List.cons_prefix_cons.1 hbefore
        rw [run_cons, hkept before hrest, hstore]
  · rw [if_neg hshould] at hfirst ⊢
    refine ⟨[], ⟨_, hfirst⟩, ?_, fun before hbefore ↦ ?_⟩
    · rw [entriesStored, Outbox.along, Outbox.along, hnone]
      rfl
    · cases before with
      | nil => rfl
      | cons j before =>
        obtain ⟨rfl, hrest⟩ := List.cons_prefix_cons.1 hbefore
        obtain rfl := List.prefix_nil.1 hrest
        rw [run_cons, run_nil, hstore]

omit [DecidableEq ι] [DecidableEq ρ] [UnicodeData] in
/-- What a log call has stored when it has finished is due by settings that were stored while it
ran. -/
theorem OnCourse.of_finished {answer : LogAnswer}
    (h : OnCourse Seen utcnow call level (.finished answer) items) :
    ∃ settings, Seen settings ∧ items = entriesDue utcnow call level (settings.getD {}) := by
  cases h with
  | finished hseen hdue => exact ⟨_, hseen, hdue.symm⟩

/-- **A log call obeys the settings**, whatever happens meanwhile, if and only if its process knows
them when it begins. -/
theorem obeys_call_iff (h : LogCallBegins requests s i p utcnow call level) :
    (∀ rest, Obeys requests s i utcnow call level (i :: rest)) ↔
      CacheAgrees s.store p level := by
  constructor
  · intro hobeys cached hcached
    obtain ⟨rest, ⟨answer, hfinished⟩, hitems, hkept⟩ := log_alone h hcached
    obtain ⟨before, hbefore, hdue⟩ := hobeys rest answer hfinished
    rw [hitems, LogDeployment.stored, hkept before hbefore] at hdue
    exact entriesDue_eq_iff.1 hdue
  · intro hagrees rest answer hfinished
    obtain ⟨hfirst, hstore, hnone⟩ := begins_log h
    have hseen : SeenIn requests s [] s.store.settings := ⟨[], List.prefix_rfl, rfl⟩
    have hcourse : OnCourse (SeenIn requests s []) utcnow call level
        ((logStep requests s i).threads i) (Outbox.itemsOf i (storedAt s i).toList) := by
      rw [hfirst, hnone]
      cases hcached : s.store.cache p with
      | none => exact .lookUp
      | some cached =>
        exact onCourse_withSettings h.level h.unforced hseen
          (entriesDue_eq_iff.2 (hagrees cached hcached))
    have hrun := onCourse_run h.request h.level h.unforced hcourse rest
    rw [hfinished] at hrun
    obtain ⟨settings, ⟨before, hbefore, rfl⟩, hitems⟩ := hrun.of_finished
    exact ⟨before, hbefore, hitems⟩

/-- **The settings take effect if and only if processes know them**, over every run of every number
of processes: the log calls of a run that begin after a change of the settings obey them, whatever
happens from then on, exactly if each of them finds its process knowing the settings. -/
theorem obeys_iff (requests : ι → LogRequest ρ) (settings : Option LogSettingsSnapshot)
    (logs : List ApplicationLog) (schedule : List ι) :
    (∀ before i after p utcnow call level, schedule = before ++ i :: after →
      LogCallBegins requests (run (logStep requests) (logStart ι ρ settings logs) before) i p utcnow
        call level →
      ∀ rest, Obeys requests (run (logStep requests) (logStart ι ρ settings logs) before) i utcnow
        call level (i :: rest)) ↔
    ∀ before i after p utcnow call level, schedule = before ++ i :: after →
      LogCallBegins requests (run (logStep requests) (logStart ι ρ settings logs) before) i p utcnow
        call level →
      CacheAgrees (run (logStep requests) (logStart ι ρ settings logs) before).store p level := by
  constructor
  · intro h before i after p utcnow call level hschedule hbegins
    exact (obeys_call_iff hbegins).1 (h before i after p utcnow call level hschedule hbegins)
  · intro h before i after p utcnow call level hschedule hbegins
    exact (obeys_call_iff hbegins).2 (h before i after p utcnow call level hschedule hbegins)

/-! ## A process that changes the settings alone -/

/-- **What a process that changes the settings has to see to**: nobody else changes them, and none of
its own calls has read them, or has changed them itself, and has yet to put them into the copy. -/
def ChangesAlone (requests : ι → LogRequest ρ) (p : ρ) (s : LogState ι ρ) (i : ι) : Prop :=
  ∀ settings found, s.threads i = .write settings found → (requests i).process = p ∧
    ∀ j, (requests j).process = p →
      (∀ stored, s.threads j ≠ .found stored) ∧ ∀ settings, s.threads j ≠ .keep settings

/-- What the calls of a process have read or stored is what is stored now, and so is the copy of the
process, unless one of them is about to replace it. -/
structure UpToDate (requests : ι → LogRequest ρ) (p : ρ) (s : LogState ι ρ) : Prop where
  found : ∀ j, (requests j).process = p → ∀ settings, s.threads j = .found settings →
    settings = s.store.settings
  keep : ∀ j, (requests j).process = p → ∀ settings, s.threads j = .keep settings →
    s.store.settings = some settings
  cache : (∀ j, (requests j).process = p → ∀ settings, s.threads j ≠ .keep settings) →
    ∀ cached, s.store.cache p = some cached → cached = s.store.stored

omit [DecidableEq ι] [DecidableEq ρ] [UnicodeData] in
theorem upToDate_start (requests : ι → LogRequest ρ) (p : ρ) (settings : Option LogSettingsSnapshot)
    (logs : List ApplicationLog) : UpToDate requests p (logStart ι ρ settings logs) where
  found _ _ _ h := LogPhase.noConfusion h
  keep _ _ _ h := LogPhase.noConfusion h
  cache _ _ h := absurd h.symm (Option.some_ne_none _)

/-- A step that leaves the stored settings as they are, and leaves the copy of the process as it is
or brings it up to date. -/
theorem UpToDate.step_of_kept (h : UpToDate requests p s)
    (hsettings : (logStep requests s i).store.settings = s.store.settings)
    (hfound : ∀ settings, (logStep requests s i).threads i = .found settings →
      settings = s.store.settings)
    (hkeep : ∀ settings, (logStep requests s i).threads i ≠ .keep settings)
    (hcache : ((requests i).process = p → ∀ settings, s.threads i ≠ .keep settings) ∧
        (logStep requests s i).store.cache p = s.store.cache p ∨
      (logStep requests s i).store.cache p = some s.store.stored) :
    UpToDate requests p (logStep requests s i) := by
  have hne : ∀ j, j ≠ i → (logStep requests s i).threads j = s.threads j :=
    fun j hj ↦ Pool.threads_step_of_ne hj
  have hstored : (logStep requests s i).store.stored = s.store.stored := by
    rw [LogDeployment.stored, hsettings, ← LogDeployment.stored]
  refine ⟨fun j hj settings hthread ↦ ?_, fun j hj settings hthread ↦ ?_,
    fun hnone cached hcached ↦ ?_⟩
  · rw [hsettings]
    by_cases hji : j = i
    · subst hji
      exact hfound settings hthread
    · exact h.found j hj settings ((hne j hji).symm.trans hthread)
  · rw [hsettings]
    by_cases hji : j = i
    · subst hji
      exact absurd hthread (hkeep settings)
    · exact h.keep j hj settings ((hne j hji).symm.trans hthread)
  · rw [hstored]
    obtain ⟨hquiet, hsame⟩ | hread := hcache
    · refine h.cache (fun j hj settings hthread ↦ ?_) cached (hsame.symm.trans hcached)
      by_cases hji : j = i
      · subst hji
        exact hquiet hj settings hthread
      · exact hnone j hj settings ((hne j hji).trans hthread)
    · exact (Option.some.inj (hread.symm.trans hcached)).symm

omit [UnicodeData] in
/-- A process that replaces its copy leaves those of the others alone. -/
theorem cache_remember (store : LogDeployment ρ) (p q : ρ) (settings : LogSettingsSnapshot) :
    (store.remember q settings).cache p = if p = q then some settings else store.cache p :=
  Function.update_apply ..

omit [DecidableEq ρ] in
theorem withSettings_ne (request : LogRequest ρ) (settings : LogSettingsSnapshot) :
    (∀ stored, request.withSettings settings ≠ .found stored) ∧
      ∀ stored, request.withSettings settings ≠ .keep stored := by
  obtain ⟨answer, heq⟩ | ⟨entry, heq⟩ := request.withSettings_cases settings
  · rw [heq]
    exact ⟨fun _ h ↦ LogPhase.noConfusion h, fun _ h ↦ LogPhase.noConfusion h⟩
  · rw [heq]
    exact ⟨fun _ h ↦ LogPhase.noConfusion h, fun _ h ↦ LogPhase.noConfusion h⟩

omit [DecidableEq ρ] in
theorem begins_ne (request : LogRequest ρ) (store : LogDeployment ρ) :
    (∀ stored, request.begins store ≠ .found stored) ∧
      ∀ stored, request.begins store ≠ .keep stored := by
  obtain ⟨answer, heq⟩ | ⟨entry, heq⟩ | ⟨settings, heq⟩ | heq := request.begins_cases store <;>
    rw [heq] <;> exact ⟨fun _ h ↦ LogPhase.noConfusion h, fun _ h ↦ LogPhase.noConfusion h⟩

/-- **One step** keeps what the process knows up to date, if whoever changes the settings does so
alone. -/
theorem UpToDate.step (h : UpToDate requests p s) (halone : ChangesAlone requests p s i) :
    UpToDate requests p (logStep requests s i) := by
  have hthread : (logStep requests s i).threads i =
      ((requests i).advance (s.threads i) s.store).1 := Pool.threads_step_self
  have hstore : (logStep requests s i).store = ((requests i).advance (s.threads i) s.store).2 := rfl
  cases hphase : s.threads i with
  | begin =>
    rw [hphase, LogRequest.advance] at hthread hstore
    dsimp only at hthread hstore
    obtain ⟨hfound, hkeep⟩ := begins_ne (requests i) s.store
    refine h.step_of_kept (by rw [hstore]) (fun settings hx ↦ ?_) (fun settings hx ↦ ?_)
      (.inl ⟨?_, ?_⟩)
    · exact absurd (hthread.symm.trans hx) (hfound settings)
    · exact absurd (hthread.symm.trans hx) (hkeep settings)
    · intro _ _ hx
      cases hphase.symm.trans hx
    · rw [hstore]
  | lookUp =>
    rw [hphase, LogRequest.advance] at hthread hstore
    dsimp only at hthread hstore
    refine h.step_of_kept (by rw [hstore]) (fun settings hx ↦ ?_) (fun settings hx ↦ ?_)
      (.inl ⟨?_, ?_⟩)
    · exact (LogPhase.found.inj (hthread.symm.trans hx)).symm
    · cases hthread.symm.trans hx
    · intro _ _ hx
      cases hphase.symm.trans hx
    · rw [hstore]
  | found read =>
    rw [hphase, LogRequest.advance] at hthread hstore
    dsimp only at hthread hstore
    obtain ⟨hfound, hkeep⟩ := withSettings_ne (requests i) (read.getD {})
    refine h.step_of_kept (by rw [hstore]; rfl) (fun settings hx ↦ ?_) (fun settings hx ↦ ?_) ?_
    · exact absurd (hthread.symm.trans hx) (hfound settings)
    · exact absurd (hthread.symm.trans hx) (hkeep settings)
    · rw [hstore, cache_remember]
      by_cases hp : p = (requests i).process
      · rw [if_pos hp, h.found i hp.symm read hphase]
        exact .inr rfl
      · rw [if_neg hp]
        exact .inl ⟨fun hi ↦ absurd hi.symm hp, rfl⟩
  | write settings found =>
    rw [hphase, LogRequest.advance] at hthread hstore
    by_cases hclash : (!found && s.store.settings.isSome) = true
    · rw [if_pos hclash] at hthread hstore
      dsimp only at hthread hstore
      refine h.step_of_kept (by rw [hstore]) (fun settings hx ↦ ?_) (fun settings hx ↦ ?_)
        (.inl ⟨?_, ?_⟩)
      · cases hthread.symm.trans hx
      · cases hthread.symm.trans hx
      · intro _ _ hx
        cases hphase.symm.trans hx
      · rw [hstore]
    · rw [if_neg hclash] at hthread hstore
      dsimp only at hthread hstore
      obtain ⟨hown, hothers⟩ := halone settings found hphase
      have hne : ∀ j, j ≠ i → (logStep requests s i).threads j = s.threads j :=
        fun j hj ↦ Pool.threads_step_of_ne hj
      refine ⟨fun j hj read hx ↦ ?_, fun j hj kept hx ↦ ?_, fun hnone ↦ ?_⟩
      · by_cases hji : j = i
        · subst hji
          cases hthread.symm.trans hx
        · exact absurd ((hne j hji).symm.trans hx) ((hothers j hj).1 read)
      · by_cases hji : j = i
        · subst hji
          rw [hstore, LogPhase.keep.inj (hthread.symm.trans hx)]
        · exact absurd ((hne j hji).symm.trans hx) ((hothers j hj).2 kept)
      · exact absurd hthread (hnone i hown settings)
  | keep settings =>
    rw [hphase, LogRequest.advance] at hthread hstore
    dsimp only at hthread hstore
    refine h.step_of_kept (by rw [hstore]; rfl) (fun settings hx ↦ ?_) (fun settings hx ↦ ?_) ?_
    · cases hthread.symm.trans hx
    · cases hthread.symm.trans hx
    · rw [hstore, cache_remember]
      by_cases hp : p = (requests i).process
      · rw [if_pos hp, LogDeployment.stored, h.keep i hp.symm settings hphase]
        exact .inr rfl
      · rw [if_neg hp]
        exact .inl ⟨fun hi ↦ absurd hi.symm hp, rfl⟩
  | insert _ | broadcast _ | find _ | finished _ =>
    rw [hphase, LogRequest.advance] at hthread hstore
    dsimp only at hthread hstore
    refine h.step_of_kept (by rw [hstore]) (fun settings hx ↦ ?_) (fun settings hx ↦ ?_)
      (.inl ⟨?_, ?_⟩)
    · cases hthread.symm.trans hx
    · cases hthread.symm.trans hx
    · intro _ _ hx
      cases hphase.symm.trans hx
    · rw [hstore]

/-- **A process that is the only one to change the settings**, and changes them while none of its own
calls is about to replace the copy, knows them whenever no change is half done. -/
theorem cacheAgrees_of_own {settings : Option LogSettingsSnapshot} {logs : List ApplicationLog}
    {schedule : List ι} (h : Guarded (logStep requests) (ChangesAlone requests p)
      (logStart ι ρ settings logs) schedule)
    (hdone : ∀ j, (requests j).process = p → ∀ new,
      (run (logStep requests) (logStart ι ρ settings logs) schedule).threads j ≠ .keep new) :
    CacheAgrees (run (logStep requests) (logStart ι ρ settings logs) schedule).store p level := by
  have hknows : UpToDate requests p
      (run (logStep requests) (logStart ι ρ settings logs) schedule) :=
    h.induction (fun _ _ hs hi ↦ hs.step hi) (upToDate_start requests p settings logs)
  intro cached hcached
  rw [hknows.cache hdone cached hcached]
  exact ⟨rfl, fun _ ↦ rfl⟩

end

section

attribute [local instance] UnicodeData.ascii

/-- The operator process logs, and the admin process sets the minimum level to Warn. -/
def Sample.logRequests (admin : Bool) : Nat → LogRequest Bool
  | 1 => .set admin "Warn" 30
  | n => .log false n Sample.logCall

/-- The operator process has logged before the admin process sets the minimum level to Warn.  The
next entry it logs is less severe, and is not treated as the settings say. -/
theorem not_obeys_of_other_process :
    let s := run (logStep (Sample.logRequests true)) (logStart Nat Bool none [])
      [0, 0, 0, 0, 0, 1, 1, 1, 1]
    s.store.stored.minimumLevel = .warn ∧
      LogCallBegins (Sample.logRequests true) s 2 false 2 Sample.logCall .info ∧
      ¬ ∀ rest, Obeys (Sample.logRequests true) s 2 2 Sample.logCall .info (2 :: rest) := by
  intro s
  have hbegins : LogCallBegins (Sample.logRequests true) s 2 false 2 Sample.logCall .info :=
    ⟨rfl, by decide, ⟨1, ⟨.warn, 30, by decide, by decide⟩, by decide⟩, rfl, by decide⟩
  refine ⟨by decide, hbegins, fun hobeys ↦ ?_⟩
  have hagrees := (obeys_call_iff hbegins).1 hobeys {} (by decide)
  exact absurd hagrees.1 (by decide)

/-- In one process, too, the copy may end up out of date: the lookup of the first entry has read the
old settings when the new ones are stored, and puts them into the copy afterwards. -/
example :
    let s := run (logStep (Sample.logRequests false)) (logStart Nat Bool none [])
      [0, 0, 1, 1, 1, 1, 0]
    s.threads 1 = .finished (.saved s.store.stored) ∧ s.store.stored.minimumLevel = .warn ∧
      s.store.cache false = some {} := by decide

end

end Ollog

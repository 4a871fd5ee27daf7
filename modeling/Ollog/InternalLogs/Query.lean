import Ollog.InternalLogs.Service
import Ollog.Lib.Paging

/-!
# Reading the application log

An administrator reads the log in pages, the newest entries first, while the processes go on
writing into it.  Between two requests the entries move to later pages, so some are shown twice; the
question is whether one can slip through.

`query_logs` leaves two things to the server, which `LogServer` names: how it matches a text without
regard to case, and which of the orders by time it chooses where times tie.
-/

set_option autoImplicit false

namespace Ollog

open Effects Paging

/-! ## The query -/

/-- The milliseconds in which the database keeps a time. -/
def bsonMillis (t : Int) : Int := t / 1000

/-- The order of `sort("-timestamp")`. -/
def newestFirst (a b : ApplicationLog) : Bool :=
  decide (bsonMillis b.timestamp ≤ bsonMillis a.timestamp)

theorem totalPreorder_newestFirst : TotalPreorder newestFirst where
  trans a b c hab hbc := by
    simp only [newestFirst, decide_eq_true_eq] at *
    omega
  total a b := by
    simp only [newestFirst, decide_eq_true_eq]
    omega

/-- What a query of the log leaves to the server. -/
structure LogServer where
  /-- `{"$regex": re.escape(text), "$options": "i"}`. -/
  caseless (text : String) : Except PyErr (String → Bool)
  /-- The order in which it returns entries, the newest first. -/
  sorted : List ApplicationLog → List ApplicationLog
  arranges : ∀ logs, Arranges newestFirst (sorted logs) logs

/-- The filters of `query_logs`. -/
structure LogFilters where
  level : Option String := none
  source : Option String := none
  search : Option String := none
  start : Option Int := none
  stop : Option Int := none

section

variable [UnicodeData]

/-- The query that `query_logs` makes of its filters; an empty text filters nothing. -/
def logQuery (server : LogServer) (filters : LogFilters) :
    Except PyErr (ApplicationLog → Bool) := do
  let level ← (filters.level.filter (· ≠ "")).mapM normalizeLogLevel
  let source ← (filters.source.filter (· ≠ "")).mapM server.caseless
  let search ← (filters.search.filter (· ≠ "")).mapM server.caseless
  return fun log ↦
    level.all (fun level ↦ decide (level.severity ≤ log.severity)) &&
    source.all (fun found ↦ found log.source) &&
    filters.start.all (fun start ↦ decide (bsonMillis start ≤ bsonMillis log.timestamp)) &&
    filters.stop.all (fun stop ↦ decide (bsonMillis log.timestamp ≤ bsonMillis stop)) &&
    search.all fun found ↦ found log.message || found log.source || log.eventType.any found

/-- `min(max(1, page_size), 200)`. -/
def safePageSize (pageSize : Int) : Nat := (min (max 1 pageSize) 200).toNat

/-- `query_logs`: a page of the entries that match, and how many match. -/
def queryLogs (server : LogServer) (filters : LogFilters) (page pageSize : Int)
    (logs : List ApplicationLog) : Except PyErr (List ApplicationLog × Nat) := do
  let found := logs.filter (← logQuery server filters)
  let safePage := (max 1 page).toNat
  return (((server.sorted found).drop ((safePage - 1) * safePageSize pageSize)).take
    (safePageSize pageSize), found.length)

variable {server : LogServer} {filters : LogFilters} {query : ApplicationLog → Bool} {pageSize : Int}

omit [UnicodeData] in
theorem safePageSize_pos : 0 < safePageSize pageSize := by
  rw [safePageSize]
  omega

theorem queryLogs_eq (hquery : logQuery server filters = .ok query) (k : Nat)
    (logs : List ApplicationLog) : queryLogs server filters (k + 1) pageSize logs =
      .ok (page (safePageSize pageSize) k (server.sorted (logs.filter query)),
        (logs.filter query).length) := by
  have hpage : (max 1 ((k : Int) + 1)).toNat - 1 = k := by omega
  rw [queryLogs, hquery]
  show Except.ok (((server.sorted (logs.filter query)).drop _).take _, _) = _
  rw [hpage, page]

/-! ## Reading on -/

variable {ι ρ : Type} [DecidableEq ι] [DecidableEq ρ] {requests : ι → LogRequest ρ}

/-- The deployment at each request of a page: between two of them the calls of the processes take
their steps. -/
def atRequest (requests : ι → LogRequest ρ) (s : LogState ι ρ) (between : Nat → List ι) :
    Nat → LogState ι ρ
  | 0 => s
  | k + 1 => run (logStep requests) (atRequest requests s between k) (between k)

/-- Calls keep the entries there are. -/
theorem prefix_run (s : LogState ι ρ) (schedule : List ι) :
    s.store.logs <+: (run (logStep requests) s schedule).store.logs := by
  rw [logs_run]
  exact List.prefix_append ..

/-- **Reading the log page after page**, until one is empty, shows every entry that matches and was
there when the first page was read, whatever the processes write in between, and whatever order the
server chooses each time; and it shows nothing that does not match.  This takes that nothing is
deleted, and that no boundary between two pages falls between entries of the same millisecond. -/
theorem reading_on_shows_all {servers : Nat → LogServer}
    (hquery : ∀ k, logQuery (servers k) filters = .ok query)
    (s : LogState ι ρ) (between : Nat → List ι) {n : Nat}
    {items : Nat → List ApplicationLog} {total : Nat → Nat}
    (hitems : ∀ k ≤ n, queryLogs (servers k) filters (k + 1) pageSize
      (atRequest requests s between k).store.logs = .ok (items k, total k))
    (hfit : ∀ k < n, PagesFit newestFirst (safePageSize pageSize)
      ((atRequest requests s between k).store.logs.filter query))
    (hend : items n = []) :
    (∀ log ∈ s.store.logs, query log = true → ∃ k < n, log ∈ items k) ∧
      ∀ k ≤ n, ∀ log ∈ items k,
        log ∈ (atRequest requests s between k).store.logs ∧ query log = true := by
  have hpage : ∀ k ≤ n, items k = page (safePageSize pageSize) k
      ((servers k).sorted ((atRequest requests s between k).store.logs.filter query)) := fun k hk ↦
    (Prod.mk.inj (Except.ok.inj ((hitems k hk).symm.trans (queryLogs_eq (hquery k) k _)))).1
  constructor
  · intro log hlog hmatches
    have hgrows : ∀ k, ((atRequest requests s between k).store.logs.filter query).Sublist
        ((atRequest requests s between (k + 1)).store.logs.filter query) := fun k ↦
      (prefix_run _ (between k)).sublist.filter query
    have hlast : ((atRequest requests s between n).store.logs.filter query).length ≤
        n * safePageSize pageSize := by
      have hempty := (hpage n (Nat.le_refl n)).symm.trans hend
      rw [page, List.take_eq_nil_iff, List.drop_eq_nil_iff] at hempty
      rcases hempty with hzero | hlength
      · exact absurd hzero (Nat.pos_iff_ne_zero.1 safePageSize_pos)
      · exact ((servers n).arranges _).perm.length_eq ▸ hlength
    obtain ⟨k, hk, hmem⟩ := exists_page_of_grows totalPreorder_newestFirst hgrows
      (fun k ↦ (servers k).arranges _) hfit hlast (List.mem_filter.2 ⟨hlog, hmatches⟩)
    exact ⟨k, hk, hpage k (Nat.le_of_lt hk) ▸ hmem⟩
  · intro k hk log hlog
    rw [hpage k hk, page] at hlog
    have hfound := List.mem_of_mem_drop (List.mem_of_mem_take hlog)
    exact List.mem_filter.1 (((servers k).arranges _).perm.mem_iff.1 hfound)

end

section

attribute [local instance] UnicodeData.ascii

/-- A server, for queries without a text. -/
def Sample.logServer : LogServer where
  caseless _ := .error (.writeError "regular expression is invalid")
  sorted logs := logs.mergeSort newestFirst
  arranges := arranges_mergeSort totalPreorder_newestFirst

/-- Three entries. -/
def Sample.threeLogged : LogState Unit Unit :=
  logStart Unit Unit none ([1000, 2000, 3000].map fun t ↦ applicationLog t .info Sample.logCall 30)

/-- A fourth one is written while the first page is read. -/
def Sample.fourthLogged : Nat → List Unit
  | 0 => List.replicate 5 ()
  | _ + 1 => []

/-- The call that logs the fourth. -/
def Sample.fourthCall (_ : Unit) : LogRequest Unit := .log () 4000 Sample.logCall

/-- What is shown on a page of two. -/
def Sample.shown (k : Nat) : List ApplicationLog :=
  page (safePageSize 2) k (Sample.logServer.sorted
    ((atRequest Sample.fourthCall Sample.threeLogged Sample.fourthLogged k).store.logs.filter
      fun _ ↦ true))

/-- The three entries are on the first two pages; the third page is empty. -/
theorem reading_on_shows_all_of_three :
    Sample.threeLogged.store.logs.length = 3 ∧
      ∀ log ∈ Sample.threeLogged.store.logs, ∃ k < 2, log ∈ Sample.shown k := by
  have hquery : logQuery Sample.logServer {} = .ok fun _ ↦ true := rfl
  have hdistinct : ∀ k < 2,
      ((atRequest Sample.fourthCall Sample.threeLogged Sample.fourthLogged k).store.logs.filter
        fun _ ↦ true).Pairwise fun a b ↦ ¬ (newestFirst a b = true ∧ newestFirst b a = true) := by
    decide +kernel
  have hlength :
      ((atRequest Sample.fourthCall Sample.threeLogged Sample.fourthLogged 2).store.logs.filter
        fun _ ↦ true).length ≤ 2 * safePageSize 2 := by
    decide +kernel
  have hend : Sample.shown 2 = [] := by
    rw [Sample.shown, page,
      List.drop_eq_nil_of_le ((Sample.logServer.arranges _).perm.length_eq.le.trans hlength),
      List.take_nil]
  exact ⟨rfl, fun log hlog ↦ (reading_on_shows_all (fun _ ↦ hquery) Sample.threeLogged
    Sample.fourthLogged (fun k _ ↦ queryLogs_eq hquery k _)
    (fun k hk ↦ pagesFit_of_pairwise totalPreorder_newestFirst (hdistinct k hk)) hend).1
      log hlog rfl⟩

end

end Ollog

import Ollog.Qso.Log

/-!
# Every document can be read

Reading a log hydrates the documents that are found, so one document with a clashing name makes
list, export and every request that addresses it fail.  New documents never have one, since
`qso_from_input_dict` takes all of them out, and neither do the updates of the browser's form.
A REST patch takes out the names in `protectedFields`, which is not all of them, and does not look
at what a dotted name leads to: whether a document survives it is `hydratable_update_iff`.
-/

set_option autoImplicit false

namespace Ollog

open Effects

/-- No field of the document clashes with a keyword of `model_construct`. -/
def Hydratable (d : Doc) : Prop := ∀ k ∈ clashingNames, k ∉ d

theorem hydrates_iff {d : Doc} {now : DateTime} :
    (∃ qso, qsoFromMongoDoc now d = .ok qso) ↔ Hydratable d := qsoFromMongoDoc_isOk_iff

/-! ## Updates -/

theorem rootOf_mem_of_applySet {set d d' : Doc} {key : String} (h : applySet set d = .ok d')
    (hkey : key ∈ set) (hroot : rootOf key ∈ clashingNames) : rootOf key ∈ d' := by
  rw [Doc.mem_iff_ne_none]
  by_cases hdot : rootOf key = key
  · have hplain : ∀ k ∈ clashingNames, PlainKey k := by decide
    rw [hdot] at hroot ⊢
    rw [getElem?_applySet_plain h (hplain key hroot) hkey, ← Doc.mem_iff_ne_none]
    exact hkey
  · obtain ⟨w, hw, -⟩ := applySet_container h hkey hdot
    rw [hw]
    exact Option.some_ne_none w

/-- **A document that can be read still can be after an update exactly if no path of the update
starts at a clashing name.** -/
theorem hydratable_applySet_iff {set d d' : Doc} (h : applySet set d = .ok d')
    (hd : Hydratable d) : Hydratable d' ↔ ∀ key ∈ set, rootOf key ∉ clashingNames := by
  constructor
  · exact fun hd' key hkey hroot ↦ hd' _ hroot (rootOf_mem_of_applySet h hkey hroot)
  · intro hset k hk
    rw [Doc.mem_iff_ne_none, getElem?_applySet_of_untouched h fun key hkey heq ↦
      hset key hkey (heq ▸ hk), ← Doc.mem_iff_ne_none]
    exact hd k hk

theorem hydratable_update_iff [UnicodeData] {qso : QSO} {updates old new : Doc}
    (h : applySet (Doc.toStored (withRowHash qso updates)) old = .ok new)
    (hold : Hydratable old) : Hydratable new ↔ ∀ key ∈ updates, rootOf key ∉ clashingNames := by
  rw [hydratable_applySet_iff h hold]
  have hmem : ∀ key, key ∈ Doc.toStored (withRowHash qso updates) ↔
      key = "rowHash" ∨ key ∈ updates := fun key ↦ by
    rw [Doc.mem_toStored, withRowHash, Std.ExtTreeMap.mem_insert, Std.compare_eq_iff_eq,
      @eq_comm _ "rowHash"]
  simp only [hmem, forall_eq_or_imp, and_iff_right_iff_imp]
  exact fun _ ↦ by decide

/-! ## Runs -/

section

variable [UnicodeData]

/-- No path of the request starts at a clashing name, unless it is taken out again. -/
def Request.SparesKeywords : Request → Prop
  | .patch _ body _ => ∀ k ∈ body.fields, k ∉ protectedFields → rootOf k ∉ clashingNames
  | _ => True

omit [UnicodeData] in
theorem rootOf_notMem_of_isAdifName {k : String} (hk : isAdifName k = true) :
    rootOf k ∉ clashingNames := by
  rw [rootOf_of_plain (plainKey_of_isAdifName hk)]
  exact notMem_of_isAdifName (by decide) hk

theorem Request.Changes.rootOf_notMem {request : Request} {qso : QSO} {updates : Doc}
    (hchange : request.Changes qso updates) (hrequest : request.SparesKeywords) :
    ∀ k ∈ updates, rootOf k ∉ clashingNames := by
  intro k hk
  cases request with
  | patch qsoId body user =>
    obtain ⟨fields, -, -, hmem, hdate⟩ := patchUpdates_eq_ok hchange.2
    have hfields : ∀ j ∈ fields, rootOf j ∉ clashingNames := fun j hj ↦
      hrequest j ((hmem j).1 hj).1 ((hmem j).1 hj).2
    obtain ⟨-, rfl⟩ | ⟨_, _, dt, -, -, -, rfl⟩ := recalculateDate_cases hdate
    · exact hfields k hk
    · rw [Std.ExtTreeMap.mem_insert, Std.compare_eq_iff_eq] at hk
      obtain rfl | hk := hk
      · decide
      · exact hfields k hk
  | uiPatch qsoId form user =>
    obtain ⟨v, hv⟩ := Option.ne_none_iff_exists'.1 (Doc.mem_iff_ne_none.1 hk)
    obtain ⟨hname, -⟩ | ⟨rfl, -⟩ := formUpdates_eq_ok hchange.2 hv
    · exact rootOf_notMem_of_isAdifName hname
    · decide
  | delete qsoId user =>
    rw [hchange.2, Std.ExtTreeMap.mem_insert, Std.compare_eq_iff_eq] at hk
    obtain rfl | hk := hk
    · decide
    · simp at hk
  | _ => exact absurd hchange id

theorem hydratable_newDoc {now : DateTime} {oid : ObjectId} {qsoDict : Doc} {qso : QSO}
    (h : qsoFromInputDict now oid qsoDict = .ok qso) :
    Hydratable (Doc.toStored (qsoToMongoDoc oid qso)) := by
  have hcls : qsoDict["cls"]? = none :=
    Std.ExtTreeMap.getElem?_eq_none (qsoFromInputDict_eq_ok.1 h).1
  intro k hk
  rw [Doc.mem_toStored, Doc.mem_iff_ne_none, not_not, getElem?_newDoc h]
  simp only [clashingNames, List.mem_cons, List.not_mem_nil, or_false] at hk
  rcases hk with rfl | rfl | rfl | rfl | rfl | rfl <;> simp only [String.reduceEq, if_false]
  case inr.inr.inr.inr.inr => rw [if_neg (by decide), hcls]
  all_goals exact if_pos (by decide)

/-! ## Reading -/

/-- A log all of whose documents can be hydrated. -/
def Readable (c : Collection) : Prop :=
  ∀ d ∈ c.docs, ∀ now, ∃ qso, qsoFromMongoDoc now d = .ok qso

variable {env : Env} {c : Collection} {user : User}

omit [UnicodeData] in
theorem qsoFromFound_of_readable (h : Readable c) (now : DateTime) (query : Doc → Bool) :
    ∃ found, qsoFromFound now (c.docs.find? query) = .ok found := by
  cases hfind : c.docs.find? query with
  | none => exact ⟨none, rfl⟩
  | some d =>
    obtain ⟨qso, hqso⟩ := h d (List.mem_of_find?_eq_some hfind) now
    exact ⟨some qso, by rw [qsoFromFound, hqso]; rfl⟩

omit [UnicodeData] in
/-- Addressing a QSO of a readable log ends in a 404 or in the QSO. -/
theorem ownQso_of_readable (h : Readable c) (qsoId : String) :
    wp (ownQso env qsoId user : Db _) (fun _ c' ↦ c' = c) (fun exc c' ↦ exc = notFound ∧ c' = c) c := by
  rw [ownQso]
  split
  · exact ⟨rfl, rfl⟩
  rename_i oid _
  obtain ⟨found, hfound⟩ := qsoFromFound_of_readable h env.now fun d ↦
    d["_id"]? == some (.oid oid)
  simp only [wp_bind, getQsoById, wp_liftM, wp_findOne, wp_ofExcept, hfound, Except.ok.injEq, forall_eq',
    reduceCtorEq, false_imp_iff, implies_true, and_true]
  cases found with
  | none => exact ⟨rfl, rfl⟩
  | some qso =>
    simp only [wp_ite, wp_throw, wp_pure, and_true, implies_true]

/-- The export of a readable log writes its active QSOs. -/
theorem exportAdif_eq_ok (env : Env) (user : User) (h : Readable c) : ∃ qsos,
    (c.docs.filter (activeQuery user.callsign)).mapM (qsoFromMongoDoc env.now) = .ok qsos ∧
      (exportAdif env user : Db _) c = .ok (exportStream (qsos.map qsoToAdifDict)) c := by
  obtain ⟨qsos, hqsos⟩ := exists_mapM_of_forall
    fun d (hd : d ∈ c.docs.filter (activeQuery user.callsign)) ↦ h d (List.mem_filter.1 hd).1 env.now
  refine ⟨qsos, hqsos, eq_ok_of_wp ?_⟩
  simp only [exportAdif, wp_bind, wp_liftM, wp_findAll, wp_ofExcept, hqsos, Except.ok.injEq, wp_pure,
    forall_eq', reduceCtorEq, false_imp_iff, implies_true, and_true]

/-- The export of a readable log does not fail. -/
theorem exportAdif_of_readable (h : Readable c) :
    wp (exportAdif env user : Db _) (fun _ c' ↦ c' = c) (fun _ _ ↦ False) c := by
  obtain ⟨qsos, -, hexport⟩ := exportAdif_eq_ok env user h
  exact exists_ok_iff_wp.1 ⟨_, _, hexport, rfl⟩

/-! ## The log -/

/-- A log stays readable when no request starts a path at a clashing name. -/
theorem readable_run {fullName : String} {rowHashUnique : Bool} {events : List (Env × Request)}
    (h : ∀ event ∈ events, event.2.SparesKeywords) :
    Readable (run step (.empty fullName rowHashUnique) events) := by
  intro d hd now
  have hguard : Guarded step (fun _ event ↦ event.2.SparesKeywords)
    (.empty fullName rowHashUnique) events := guarded_of_forall h _
  refine hydrates_iff.2 (forall_docs_of_guarded (P := Hydratable) hguard
    (fun _ _ _ _ _ _ _ _ _ _ hqso ↦ ?_) (fun hrequest _ _ _ _ _ hold _ hchange hnew ↦ ?_)
    (fun d hd ↦ ?_) d hd)
  · exact hydratable_newDoc hqso
  · exact (hydratable_update_iff hnew hold).2 (hchange.rootOf_notMem hrequest)
  · exact absurd hd List.not_mem_nil

end

section

attribute [local instance] UnicodeData.ascii

/-- After a patch of the name `id`, which is not protected, the log cannot be read. -/
theorem not_readable_of_patched_id : ¬ Readable (run step Sample.log
    [(Sample.env, .create Sample.contact false Sample.user),
      (Sample.env, .patch Sample.firstId (Sample.oneText "id" "x") Sample.user)]) := by
  intro h
  have hid : (run step Sample.log [(Sample.env, .create Sample.contact false Sample.user),
      (Sample.env, .patch Sample.firstId (Sample.oneText "id" "x") Sample.user)]).docs.any
        (fun d ↦ "id" ∈ d) = true := by
    decide +kernel
  obtain ⟨d, hd, hmem⟩ := List.any_eq_true.1 hid
  exact hydrates_iff.1 (h d hd Sample.env.now) "id" (by decide) (of_decide_eq_true hmem)

end

end Ollog

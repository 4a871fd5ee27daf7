import Ollog.Qso.Log

/-!
# Soft deletion and the unique index

A QSO that is deleted stays in the collection, marked, and with the row hash of its marked content.
The unique index covers these tombstones like every other document.  So a deletion needs the hash
it is about to store to be free, and `softDeleteQso_iff` says that it needs nothing else: in a log
the service functions have written, a soft delete goes through exactly if no other document carries
the hash of the marked content.  A second deletion of the same contact finds the tombstone of the
first in its way.
-/

set_option autoImplicit false

namespace Ollog

open Effects

/-! ## Calls of the service -/

/-- A call of the service layer that writes. -/
inductive ServiceCall where
  /-- `insert_qso_dict`. -/
  | insert (qsoDict : Doc)
  /-- `update_qso_fields` of the QSO of that id. -/
  | update (qsoId : Value) (updates : Doc)
  /-- `soft_delete_qso` of the QSO of that id. -/
  | softDelete (qsoId : Value)
  /-- `clear_operator_log`. -/
  | clear (operator : String)

section

variable [UnicodeData]

/-- Run one call. -/
def serviceCall (env : Env) : ServiceCall → Db Unit
  | .insert qsoDict => do let _ ← insertQsoDict env (env.fresh 0) qsoDict
  | .update qsoId updates => do
    match ← getQsoById env qsoId with
    | some qso => do let _ ← updateQsoFields env qso updates
    | none => return ()
  | .softDelete qsoId => do
    match ← getQsoById env qsoId with
    | some qso => softDeleteQso qso
    | none => return ()
  | .clear operator => do let _ ← clearOperatorLog operator

/-- The collection after one call. -/
def serviceStep (c : Collection) (event : Env × ServiceCall) : Collection :=
  after (serviceCall event.1 event.2) c

/-- The unique index is there, and no document lacks a declared field. -/
structure Indexed (c : Collection) : Prop where
  rowHashUnique : c.rowHashUnique = true
  declared : ∀ d ∈ c.docs, ∀ k ∈ aliasNames, k ∈ d

theorem Indexed.insert {c c' : Collection} {env : Env} {qsoDict : Doc} (h : Indexed c)
    (hinsert : Inserts env qsoDict c c') : Indexed c' := by
  obtain ⟨oid, qso, hqso, hc'⟩ := hinsert
  obtain ⟨hdocs, hunique⟩ := Collection.insert_eq_ok hc'
  refine ⟨hunique.trans h.rowHashUnique, fun d hd k hk ↦ ?_⟩
  rw [hdocs] at hd
  rcases List.mem_append.1 hd with hd | hd
  · exact h.declared d hd k hk
  · rw [List.mem_singleton.1 hd, Doc.mem_toStored]
    exact mem_newDoc hqso hk

omit [UnicodeData] in
/-- An update adds and replaces fields, but takes none away. -/
theorem Indexed.update {c c' : Collection} {id : Value} {fields : Doc} (h : Indexed c)
    (hupdate : c.update id fields = .ok c') : Indexed c' := by
  obtain rfl | ⟨old, new, hold, -, hnew, -, hdocs, hunique, -⟩ := Collection.update_eq_ok hupdate
  · exact h
  refine ⟨hunique.trans h.rowHashUnique, fun d hd k hk ↦ ?_⟩
  rw [hdocs] at hd
  obtain rfl | ⟨hd, -⟩ := Collection.mem_replaceById hd
  · have hplain : ∀ k ∈ aliasNames, PlainKey k := by decide
    exact mem_applySet_of_mem hnew (hplain k hk) (h.declared old hold k hk)
  · exact h.declared d hd k hk

theorem indexed_serviceStep {c : Collection} (event : Env × ServiceCall) (h : Indexed c) :
    Indexed (serviceStep c event) := by
  obtain ⟨env, call⟩ := event
  rw [serviceStep]
  cases call with
  | insert qsoDict =>
    rw [serviceCall, after_discard]
    exact after_of_wp (wp_insertQsoDict (fun _ ↦ h) (fun _ ↦ h) fun c' hc' _ ↦ h.insert hc')
  | update qsoId updates =>
    refine after_of_wp ?_
    simp only [serviceCall, wp_bind]
    refine wp_getQsoById (by exact h) (fun _ _ _ qso _ ↦ ?_) fun _ ↦ h
    rw [wp_bind]
    exact wp_updateQsoFields (fun _ _ ↦ h) fun c' hc' ↦ ⟨fun _ ↦ h.update hc', fun _ ↦ h.update hc'⟩
  | softDelete qsoId =>
    refine after_of_wp ?_
    simp only [serviceCall, wp_bind]
    refine wp_getQsoById (by exact h) (fun _ _ _ qso _ ↦ ?_) fun _ ↦ h
    simp only [softDeleteQso, wp_liftM, wp_updateOne]
    exact ⟨fun c' hc' ↦ h.update hc', fun _ _ ↦ h⟩
  | clear operator =>
    rw [serviceCall, after_discard, clearOperatorLog]
    refine after_of_wp (wp_deleteMany.2 ⟨h.rowHashUnique, fun d hd ↦ ?_⟩)
    exact h.declared d (List.mem_filter.1 hd).1

/-! ## Tombstones -/

omit [UnicodeData] in
/-- The hash of a document once its deletion mark is set. -/
def tombstoneHash (d : Doc) : String :=
  canonicalDocumentHash ((d.keep fun k ↦ k ∉ hiddenNames).insert "_deleted" (.bool true))

/-- `c'` is `c` with the QSO marked as deleted, and nothing else changed. -/
def Deletes (d : Doc) (qso : QSO) (c c' : Collection) : Prop :=
  ∃ new : Doc, new["_deleted"]? = some (.bool true) ∧
    (∀ k, k ≠ "_deleted" → k ≠ "rowHash" → new[k]? = d[k]?) ∧
    c'.docs = Collection.replaceById c.docs qso.id new

theorem rowHashForUpdatedQso_deleted {now : DateTime} {d : Doc} {qso : QSO}
    (hdeclared : ∀ k ∈ aliasNames, k ∈ d) (hqso : qsoFromMongoDoc now d = .ok qso) :
    rowHashForUpdatedQso qso ((∅ : Doc).insert "_deleted" (.bool true)) = tombstoneHash d := by
  refine canonicalDocumentHash_congr fun k _ ↦ congrArg (Option.map Value.canonicalize) ?_
  have hhidden : ∀ k ∈ aliasNames, k ∉ hiddenNames := by decide
  rw [Doc.getElem?_update, Doc.getElem?_insert, Doc.getElem?_insert, Doc.getElem?_keep,
    Std.ExtTreeMap.getElem?_empty, getElem?_modelDump_of_hydrated hqso]
  split
  · rfl
  rw [Option.none_or]
  split
  · rename_i halias
    rw [if_pos (decide_eq_true (hhidden k halias)), Doc.get,
      Std.ExtTreeMap.getElem?_eq_some_getElem (hdeclared k halias), Option.getD_some]
  · split <;> rename_i h
    · rw [if_neg (by simpa using h)]
    · rw [if_pos (decide_eq_true h)]

theorem getElem?_softDeleteSet (qso : QSO) (k : String) : (softDeleteSet qso)[k]? =
    if k = "rowHash" then
      some (.str (rowHashForUpdatedQso qso ((∅ : Doc).insert "_deleted" (.bool true))))
    else if k = "_deleted" then some (.bool true) else none := by
  rw [softDeleteSet, Doc.getElem?_insert, Doc.getElem?_insert, Std.ExtTreeMap.getElem?_empty]

theorem encodable_softDeleteSet (qso : QSO) : (softDeleteSet qso).encodable = true := by
  refine Doc.encodable_iff.2 fun k v hv ↦ ?_
  rw [getElem?_softDeleteSet] at hv
  split at hv
  · rename_i hk
    cases hv
    exact ⟨hk ▸ by decide, rfl⟩
  split at hv
  · rename_i hk
    cases hv
    exact ⟨hk ▸ by decide, rfl⟩
  · cases hv

theorem mem_softDeleteSet {qso : QSO} {k : String} (hk : k ∈ softDeleteSet qso) :
    k = "rowHash" ∨ k = "_deleted" := by
  rw [Doc.mem_iff_ne_none, getElem?_softDeleteSet] at hk
  by_contra hnot
  rw [not_or] at hnot
  rw [if_neg hnot.1, if_neg hnot.2] at hk
  exact hk rfl

/-- No other document carries the hash of the marked content. -/
def TombstoneFree (d : Doc) (c : Collection) : Prop :=
  c.rowHashUnique = true → ∀ e ∈ c.docs, e ≠ d → e["rowHash"]? ≠ some (.str (tombstoneHash d))

/-- **A soft delete goes through exactly if the hash of the tombstone is free.** -/
theorem softDeleteQso_of_declared {c : Collection} {d : Doc} (hd : d ∈ c.docs)
    (hdeclared : ∀ k ∈ aliasNames, k ∈ d) {now : DateTime} {qso : QSO}
    (hqso : qsoFromMongoDoc now d = .ok qso) :
    (∃ c', (softDeleteQso qso : Db _) c = .ok () c' ∧ Deletes d qso c c') ↔ TombstoneFree d c := by
  have hplain : ∀ k ∈ softDeleteSet qso, PlainKey k := fun k hk ↦ by
    obtain rfl | rfl := mem_softDeleteSet hk <;> decide
  have hnotid : "_id" ∉ softDeleteSet qso := fun hk ↦ by
    obtain hk | hk := mem_softDeleteSet hk <;> exact absurd hk (by decide)
  obtain ⟨id, hid⟩ := Option.isSome_iff_exists.1 (c.ids_present d hd)
  obtain rfl := id_of_hydrated hqso hid
  have hnew : ∀ k, (d ∪ Doc.toStored (softDeleteSet qso))[k]? =
      if k = "rowHash" then some (.str (tombstoneHash d))
      else if k = "_deleted" then some (.bool true) else d[k]? := by
    intro k
    rw [Doc.getElem?_update, Doc.getElem?_toStored, getElem?_softDeleteSet,
      rowHashForUpdatedQso_deleted hdeclared hqso]
    split
    · rfl
    split <;> rfl
  have hclash : ∀ e : Doc, Doc.clash "rowHash" (d ∪ Doc.toStored (softDeleteSet qso)) e = false ↔
      e["rowHash"]? ≠ some (.str (tombstoneHash d)) := by
    intro e
    rw [Doc.clash, hnew, if_pos rfl, Option.isSome_some, Bool.true_and, beq_eq_false_iff_ne, ne_comm]
  obtain ⟨hiff, hdocs⟩ :=
    Collection.update_of_plain (encodable_softDeleteSet qso) hplain hnotid hd hid
  simp only [hclash] at hiff
  rw [TombstoneFree, ← hiff]
  constructor
  · rintro ⟨c', hc', -⟩
    exact ⟨c', updateOne_eq_ok.1 hc'⟩
  · rintro ⟨c', hc'⟩
    refine ⟨c', updateOne_eq_ok.2 hc', _, ?_, fun k hk hk' ↦ ?_, hdocs c' hc'⟩
    · rw [hnew, if_neg (by decide), if_pos rfl]
    · rw [hnew, if_neg hk', if_neg hk]

/-! ## The log -/

/-- **Soft delete.**  Whatever the service functions have done to a log, the deletion of a QSO in it
succeeds, and marks that QSO and changes nothing else, if and only if no other document carries the
hash of its marked content. -/
theorem softDeleteQso_iff {fullName : String} (events : List (Env × ServiceCall)) :
    let c := run serviceStep (.empty fullName true) events
    ∀ d ∈ c.docs, ∀ now qso, qsoFromMongoDoc now d = .ok qso →
      ((∃ c', (softDeleteQso qso : Db _) c = .ok () c' ∧ Deletes d qso c c') ↔
        ∀ e ∈ c.docs, e ≠ d → e["rowHash"]? ≠ some (.str (tombstoneHash d))) := by
  intro c d hd now qso hqso
  have hindexed : Indexed c :=
    run_induction (fun _ event ↦ indexed_serviceStep event)
      ⟨rfl, fun d hd ↦ absurd hd List.not_mem_nil⟩ events
  rw [softDeleteQso_of_declared hd (hindexed.declared d hd) hqso, TombstoneFree]
  exact forall_prop_of_true hindexed.rowHashUnique

end

section

attribute [local instance] UnicodeData.ascii

/-- The dictionary of the contact. -/
def Sample.contactDict : Doc :=
  match buildQsoDict Sample.contact.merged Sample.user.callsign (some Sample.user) with
  | .ok qsoDict => qsoDict
  | .error _ => ∅

theorem softDeleteQso_of_first :
    let c := run serviceStep Sample.log [(Sample.env, .insert Sample.contactDict)]
    ∃ d ∈ c.docs, ∃ qso, qsoFromMongoDoc Sample.env.now d = .ok qso ∧
      ∃ c', (softDeleteQso qso : Db _) c = .ok () c' ∧ Deletes d qso c c' := by
  intro c
  have hone : c.docs.length = 1 := by decide +kernel
  have hreads : ∀ d ∈ c.docs, ∀ k ∈ clashingNames, k ∉ d := by decide +kernel
  obtain ⟨d, hd⟩ := List.length_eq_one_iff.1 hone
  have hmem : d ∈ c.docs := hd ▸ List.mem_singleton_self d
  obtain ⟨qso, hqso⟩ := qsoFromMongoDoc_isOk_iff.2 (hreads d hmem)
  refine ⟨d, hmem, qso, hqso, (softDeleteQso_iff _ d hmem _ qso hqso).2 fun e he hne ↦ ?_⟩
  exact absurd (List.mem_singleton.1 (hd ▸ he)) hne

/-- A contact that was deleted once, and logged again, cannot be deleted again. -/
theorem softDeleteQso_fails_of_second :
    let c := run serviceStep Sample.log [(Sample.env, .insert Sample.contactDict),
      (Sample.env, .softDelete (.oid ⟨1⟩)), (Sample.later, .insert Sample.contactDict)]
    ∃ d ∈ c.docs, activeQuery Sample.user.callsign d = true ∧
      ∃ qso, qsoFromMongoDoc Sample.env.now d = .ok qso ∧
        ¬ ∃ c', (softDeleteQso qso : Db _) c = .ok () c' := by
  intro c
  have hraises : c.docs.any (fun d ↦ activeQuery Sample.user.callsign d &&
      match qsoFromMongoDoc Sample.env.now d with
      | .ok qso => match (softDeleteQso qso : Db _) c with
        | .ok _ _ => false
        | .error _ _ => true
      | .error _ => false) = true := by
    decide +kernel
  obtain ⟨d, hd, h⟩ := List.any_eq_true.1 hraises
  rw [Bool.and_eq_true] at h
  refine ⟨d, hd, h.1, ?_⟩
  cases hqso : qsoFromMongoDoc Sample.env.now d with
  | error exc =>
    rw [hqso] at h
    exact absurd h.2 Bool.false_ne_true
  | ok qso =>
    refine ⟨qso, rfl, fun ⟨c', hc'⟩ ↦ ?_⟩
    rw [hqso] at h
    dsimp only at h
    rw [hc'] at h
    exact absurd h.2 Bool.false_ne_true

end

end Ollog

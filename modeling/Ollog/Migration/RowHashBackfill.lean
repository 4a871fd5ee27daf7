import Ollog.Migration.Backfills

/-!
# The backfill of row hashes

`backfillQsoRowHash` stamps every document without a `rowHash` that is alone with its hash, and
reports the others in groups.  The lookup `existing_by_hash[doc["rowHash"]]` needs a hash that can
be a key, so that a stored hash that is an array stops the backfill (`typeError_backfill_array`).

Without one, a run that starts from distinct hashes ends with distinct hashes.  What it stamped has
left the documents that are without a hash, and no group has gained or lost one by that
(`documentGroups_again`), so that a second run reports the same groups and updates nothing.
-/

set_option autoImplicit false

namespace Ollog

open Effects

section

variable [UnicodeData] {c : Collection} {docs : List Doc} {d e : Doc}

/-- The documents that a hash groups, each by its `_id`. -/
def documentGroup (docs : List Doc) (rowHash : String) : Option (String × List Value) :=
  let ids := idsOfHash (existingRowHash docs) (missingRowHash docs) rowHash
  if ids.length > 1 then some (rowHash, ids) else none

/-- The groups of documents that have a hash in common which one of them has yet to get. -/
def documentGroups (docs : List Doc) : List (String × List Value) :=
  (missingHashes docs).filterMap (documentGroup docs)

/-- What is reported is the text of every `_id`. -/
theorem duplicateGroups_eq :
    duplicateGroups docs = (documentGroups docs).map fun group ↦
      (group.1, group.2.map (·.pyStr)) := by
  rw [duplicateGroups, documentGroups, List.map_filterMap]
  refine List.filterMap_congr fun h _ ↦ ?_
  rw [duplicateGroup, documentGroup]
  split
  · rfl
  · rfl

omit [UnicodeData] in
theorem eraseDups_filter {α : Type} [BEq α] [LawfulBEq α] (p : α → Bool) :
    ∀ xs : List α, (xs.filter p).eraseDups = xs.eraseDups.filter p
  | [] => rfl
  | x :: xs => by
    have hrest := eraseDups_filter p (xs.filter fun y ↦ !y == x)
    cases hx : p x with
    | true =>
      rw [List.filter_cons_of_pos hx, List.eraseDups_cons, List.eraseDups_cons,
        List.filter_cons_of_pos hx, ← hrest, List.filter_comm]
    | false =>
      have hne : ¬ p x = true := by rw [hx]; exact Bool.false_ne_true
      rw [List.filter_cons_of_neg hne, List.eraseDups_cons, List.filter_cons_of_neg hne, ← hrest,
        List.filter_filter]
      refine congrArg _ (List.filter_congr fun y _ ↦ ?_)
      cases hy : p y with
      | false => rfl
      | true =>
        have hyx : (y == x) = false := beq_eq_false_iff_ne.2 fun heq ↦ hne (heq ▸ hy)
        rw [hyx]
        rfl
termination_by xs => xs.length
decreasing_by
  exact Nat.lt_succ_of_le (List.length_filter_le _ _)

/-- The documents of a hash that is looked for, those that have it first. -/
theorem idsOfHash_eq {h : String} (hh : h ∈ missingHashes docs) :
    idsOfHash (existingRowHash docs) (missingRowHash docs) h =
      (docs.filter fun d ↦ d["rowHash"]? == some (.str h)).map (Doc.get · "_id" .null) ++
        ((missingRowHash docs).filter fun d ↦ canonicalDocumentHash d == h).map
          (Doc.get · "_id" .null) := by
  rw [idsOfHash, existingRowHash, List.filter_filter]
  refine congrArg (List.map _ · ++ _) (List.filter_congr fun d _ ↦ ?_)
  cases heq : d["rowHash"]? == some (.str h) with
  | false => rfl
  | true =>
    rw [Doc.fieldMatches, beq_iff_eq.1 heq]
    exact List.any_eq_true.2 ⟨h, hh, beq_self_eq_true _⟩

/-- The ids of a group are those of its documents. -/
theorem mem_idsOfHash {h : String} (hh : h ∈ missingHashes c.docs) (hd : d ∈ c.docs) :
    Doc.get d "_id" .null ∈ idsOfHash (existingRowHash c.docs) (missingRowHash c.docs) h ↔
      d["rowHash"]? = some (.str h) ∨
        d["rowHash"]? = none ∧ canonicalDocumentHash d = h := by
  have hsame : ∀ e ∈ c.docs, Doc.get e "_id" .null = Doc.get d "_id" .null → e = d := by
    intro e he heq
    refine Collection.eq_of_id_eq he hd ?_
    rw [Collection.id_get he, Collection.id_get hd, heq]
  rw [idsOfHash_eq hh, List.mem_append, List.mem_map, List.mem_map]
  simp only [List.mem_filter, mem_missingRowHash, beq_iff_eq, and_assoc]
  refine or_congr ⟨?_, fun heq ↦ ⟨d, hd, heq, rfl⟩⟩ ⟨?_, fun heq ↦ ⟨d, hd, heq.1, heq.2, rfl⟩⟩
  · rintro ⟨e, he, heq, hid⟩
    rwa [← hsame e he hid]
  · rintro ⟨e, he, hnone, hhash, hid⟩
    rw [← hsame e he hid]
    exact ⟨hnone, hhash⟩

/-- A document that stays without a hash is in one group and in no other. -/
theorem exists_unique_group (hd : d ∈ c.docs) (hnone : d["rowHash"]? = none)
    (hlone : ¬ Lone c.docs d) :
    ∃! group, group ∈ documentGroups c.docs ∧ Doc.get d "_id" .null ∈ group.2 := by
  have hh : canonicalDocumentHash d ∈ missingHashes c.docs := mem_missingHashes.2 ⟨d, hd, hnone, rfl⟩
  have hmem := (mem_idsOfHash hh hd).2 (.inr ⟨hnone, rfl⟩)
  refine ⟨(canonicalDocumentHash d, _), ⟨List.mem_filterMap.2 ⟨_, hh, if_pos ?_⟩, hmem⟩, ?_⟩
  · refine Nat.one_lt_iff_ne_zero_and_ne_one.2 ⟨?_, fun hone ↦ hlone ?_⟩
    · exact fun hzero ↦ List.ne_nil_of_mem hmem (List.length_eq_zero_iff.1 hzero)
    · obtain ⟨id, hid⟩ := List.length_eq_one_iff.1 hone
      obtain ⟨e, he, helone, hhash, -⟩ := (idsOfHash_eq_singleton hh).1 hid
      rwa [helone.2.2 d hd hnone hhash.symm]
  · rintro group ⟨hgroup, hid⟩
    obtain ⟨h, hh', hsome⟩ := List.mem_filterMap.1 hgroup
    rw [documentGroup] at hsome
    split at hsome
    · obtain rfl := Option.some.inj hsome
      obtain hstored | ⟨-, rfl⟩ := (mem_idsOfHash hh' hd).1 hid
      · cases hnone.symm.trans hstored
      · rfl
    · cases hsome

/-! ## The second run -/

/-- A hash that more than one document has, or would get. -/
def Shared (docs : List Doc) (rowHash : String) : Prop :=
  ∀ d ∈ docs, Lone docs d → canonicalDocumentHash d ≠ rowHash

instance (rowHash : String) : Decidable (Shared docs rowHash) := by
  unfold Shared
  infer_instance

theorem lone_iff_not_shared (hd : d ∈ docs) (hnone : d["rowHash"]? = none) :
    Lone docs d ↔ ¬ Shared docs (canonicalDocumentHash d) := by
  refine ⟨fun hlone hshared ↦ hshared d hd hlone rfl, fun hshared ↦ ?_⟩
  rw [Shared] at hshared
  push Not at hshared
  obtain ⟨e, -, helone, hhash⟩ := hshared
  rwa [helone.2.2 d hd hnone hhash.symm]

/-- The documents without a hash, after a run. -/
theorem missingRowHash_again : missingRowHash (docs.map (stampRowHash docs)) =
    (missingRowHash docs).filter fun d ↦ Shared docs (canonicalDocumentHash d) := by
  have hpred : ∀ d ∈ docs, ((stampRowHash docs d)["rowHash"]?.isNone) =
      (decide (Shared docs (canonicalDocumentHash d)) && d["rowHash"]?.isNone) := by
    intro d hd
    rw [getElem?_stampRowHash_self]
    split
    · rename_i hlone
      rw [decide_eq_false ((lone_iff_not_shared hd hlone.1).1 hlone)]
      rfl
    · rename_i hlone
      cases hnone : d["rowHash"]? with
      | none =>
        have hshared := not_not.1 (mt (lone_iff_not_shared hd hnone).2 hlone)
        rw [decide_eq_true hshared]
        rfl
      | some v => exact (Bool.and_false _).symm
  rw [missingRowHash, missingRowHash, List.filter_map, List.filter_filter,
    ← List.filter_congr hpred]
  refine (List.map_congr_left fun d hd ↦ if_neg fun hlone ↦ ?_).trans (List.map_id' _)
  have hnone := (List.mem_filter.1 hd).2
  rw [Function.comp, getElem?_stampRowHash_self, if_pos hlone] at hnone
  cases hnone

theorem missingHashes_again : missingHashes (docs.map (stampRowHash docs)) =
    (missingHashes docs).filter fun h ↦ Shared docs h := by
  rw [missingHashes, missingHashes, missingRowHash_again, ← eraseDups_filter, List.filter_map]
  rfl

/-- A run takes nothing from a group and adds nothing to it. -/
theorem idsOfHash_again {h : String}
    (hh : h ∈ missingHashes (docs.map (stampRowHash docs))) :
    idsOfHash (existingRowHash (docs.map (stampRowHash docs)))
        (missingRowHash (docs.map (stampRowHash docs))) h =
      idsOfHash (existingRowHash docs) (missingRowHash docs) h := by
  rw [idsOfHash_eq hh, missingRowHash_again]
  rw [missingHashes_again, List.mem_filter, decide_eq_true_iff] at hh
  obtain ⟨hh, hshared⟩ := hh
  rw [idsOfHash_eq hh, List.filter_map, List.map_map, List.filter_filter]
  refine congrArg₂ _ ?_ ?_
  · have hpred : ∀ d ∈ docs, ((stampRowHash docs d)["rowHash"]? == some (.str h)) =
        (d["rowHash"]? == some (.str h)) := by
      intro d hd
      rw [getElem?_stampRowHash_self]
      split
      · rename_i hlone
        rw [hlone.1, beq_eq_false_iff_ne.2 fun heq ↦ hshared d hd hlone (by simpa using heq)]
        rfl
      · rfl
    refine (congrArg (List.map _) (List.filter_congr hpred)).trans (?_ : _ = _)
    refine List.map_congr_left fun d _ ↦ ?_
    rw [Function.comp, Doc.get, Doc.get, getElem?_stampRowHash (by decide)]
  · refine congrArg _ (List.filter_congr fun d _ ↦ ?_)
    cases heq : canonicalDocumentHash d == h with
    | false => rfl
    | true => rw [beq_iff_eq.1 heq, decide_eq_true hshared]; rfl

/-- **The groups are stable.** -/
theorem documentGroups_again :
    documentGroups (c.docs.map (stampRowHash c.docs)) = documentGroups c.docs := by
  rw [documentGroups, documentGroups, missingHashes_again, List.filterMap_filter]
  refine List.filterMap_congr fun h hh ↦ ?_
  split
  · rename_i hshared
    have hh' : h ∈ missingHashes (c.docs.map (stampRowHash c.docs)) := by
      rw [missingHashes_again, List.mem_filter]
      exact ⟨hh, hshared⟩
    rw [documentGroup, documentGroup, idsOfHash_again hh']
  · rename_i hshared
    rw [decide_eq_true_iff, Shared] at hshared
    push Not at hshared
    obtain ⟨d, hd, hlone, hhash⟩ := hshared
    rw [documentGroup, (idsOfHash_eq_singleton hh).2 ⟨d, hd, hlone, hhash, rfl⟩]
    rfl

theorem rowHashOps_again {c' : Collection} (hdocs : c'.docs = c.docs.map (stampRowHash c.docs)) :
    rowHashOps c'.docs = [] := by
  refine List.eq_nil_iff_forall_not_mem.2 fun op hop ↦ ?_
  obtain ⟨d, hd, hlone, -⟩ := mem_rowHashOps.1 hop
  have hsame : stampRowHash c'.docs d = d := by
    rw [hdocs] at hd ⊢
    exact stampRowHash_again hd
  have hget := @getElem?_stampRowHash_self c'.docs d _
  rw [hsame, if_pos hlone, hlone.1] at hget
  cases hget

/-! ## The backfill -/

/-- Distinct hashes stay distinct. -/
theorem indexable_stampRowHash (h : Indexable c.docs) :
    Indexable (c.docs.map (stampRowHash c.docs)) := by
  rw [Indexable, List.pairwise_map]
  refine (h.and (nodup_docs c)).imp_of_mem fun hd he hpair ↦ ?_
  exact (clash_stampRowHash hpair.2 hd he hpair.1).1

theorem scalarHashes_stampRowHash (h : ScalarHashes docs) :
    ScalarHashes (docs.map (stampRowHash docs)) := by
  intro d hd xs
  obtain ⟨e, he, rfl⟩ := List.mem_map.1 hd
  rw [getElem?_stampRowHash_self]
  split
  · exact fun heq ↦ nomatch heq
  · exact h e he xs

/-- A run that starts from distinct hashes. -/
theorem exists_rowHashPass (hindexable : Indexable c.docs)
    (hscalar : ScalarHashes c.docs) :
    ∃ report c', backfillQsoRowHash c = .ok report c' ∧ RowHashPass c report c' := by
  rw [exists_ok_iff_wp]
  refine wp_mono (wp_backfillQsoRowHash hscalar) (fun _ _ h ↦ h.1) fun _ _ h ↦ ?_
  exact h.2 (indexable_stampRowHash hindexable)

/-- **The backfill is safe and complete**, where no stored hash is an array. -/
theorem backfillQsoRowHash_ok (hindexable : Indexable c.docs)
    (hscalar : ScalarHashes c.docs) :
    ∃ report c', backfillQsoRowHash c = .ok report c' ∧
      c'.docs = c.docs.map (stampRowHash c.docs) ∧
      Indexable c'.docs ∧ c'.rowHashUnique = true ∧
      (report.duplicateGroups = (documentGroups c.docs).map fun group ↦
        (group.1, group.2.map (·.pyStr))) ∧
      (∀ d ∈ c'.docs, d["rowHash"]? = none →
        ∃! group, group ∈ documentGroups c.docs ∧ Doc.get d "_id" .null ∈ group.2) ∧
      ∃ report' c'', backfillQsoRowHash c' = .ok report' c'' ∧ c''.docs = c'.docs ∧
        report'.updated = 0 ∧ report'.duplicateGroups = report.duplicateGroups := by
  obtain ⟨report, c', hrun, hpass⟩ := exists_rowHashPass hindexable hscalar
  have hdocs := hpass.docs
  have hindexable' : Indexable c'.docs := hdocs ▸ indexable_stampRowHash hindexable
  have hscalar' : ScalarHashes c'.docs := hdocs ▸ scalarHashes_stampRowHash hscalar
  obtain ⟨report', c'', hrun', hpass'⟩ := exists_rowHashPass hindexable' hscalar'
  refine ⟨report, c', hrun, hdocs, hindexable', hpass.rowHashUnique,
    hpass.groups.trans duplicateGroups_eq, fun d hd hnone ↦ ?_, report', c'', hrun', ?_,
    hpass'.updated (rowHashOps_again hdocs), ?_⟩
  · rw [hdocs] at hd
    obtain ⟨e, he, rfl⟩ := List.mem_map.1 hd
    have hlone : ¬ Lone c.docs e := by
      intro hlone
      rw [getElem?_stampRowHash_self, if_pos hlone] at hnone
      cases hnone
    rw [stampRowHash, if_neg hlone] at hnone ⊢
    exact exists_unique_group he hnone hlone
  · rw [hpass'.docs, hdocs]
    exact (List.map_congr_left fun d hd ↦ stampRowHash_again hd).trans (List.map_id' _)
  · rw [hpass'.groups, hpass.groups, duplicateGroups_eq, duplicateGroups_eq, hdocs,
      documentGroups_again]

/-! ## A stored hash that is an array -/

omit [UnicodeData] in
/-- A stored hash that cannot be a key. -/
theorem hashable_of_array {existing : List Doc} {xs : List Value} (hd : d ∈ existing)
    (harray : d["rowHash"]? = some (.list xs)) :
    hashable existing = .error (.typeError "unhashable type: 'list'") := by
  induction existing with
  | nil => exact absurd hd List.not_mem_nil
  | cons e existing ih =>
    rw [hashable, List.forM_eq_forM, List.forM_cons]
    split
    · rfl
    · rename_i hno
      obtain rfl | hd := List.mem_cons.1 hd
      · exact absurd harray (hno xs)
      · exact ih hd

/-- **Where the backfill stops**: a stored array with the hash of a document that has none. -/
theorem typeError_backfill_array {xs : List Value} (hd : d ∈ c.docs)
    (hnone : d["rowHash"]? = none) (he : e ∈ c.docs) (harray : e["rowHash"]? = some (.list xs))
    (hmem : .str (canonicalDocumentHash d) ∈ xs) :
    backfillQsoRowHash c = .error (.typeError "unhashable type: 'list'") c := by
  have hh : canonicalDocumentHash d ∈ missingHashes c.docs := mem_missingHashes.2 ⟨d, hd, hnone, rfl⟩
  have hexisting : e ∈ existingRowHash c.docs := by
    refine List.mem_filter.2 ⟨he, ?_⟩
    rw [Doc.fieldMatches, harray, Bool.or_eq_true]
    exact .inr (List.any_eq_true.2 ⟨_, hmem, List.any_eq_true.2 ⟨_, hh, beq_self_eq_true _⟩⟩)
  have hrun : ∃ exc c', backfillQsoRowHash c = .error exc c' ∧
      exc = .typeError "unhashable type: 'list'" ∧ c' = c := by
    rw [exists_error_iff_wp, backfillQsoRowHash, wp_bind, wp_findAll]
    simp only [wp_ite]
    refine ⟨fun hnil ↦ ?_, fun _ ↦ ?_⟩
    · have hh' : canonicalDocumentHash d ∈ ([] : List String) := hnil ▸ hh
      exact absurd hh' List.not_mem_nil
    · rw [wp_bind, wp_findAll, wp_bind, wp_ofExcept]
      have hfail := hashable_of_array hexisting harray
      refine ⟨fun _ hok ↦ (by cases hfail.symm.trans hok), fun exc hexc ↦ ?_⟩
      exact ⟨(Except.error.inj (hfail.symm.trans hexc)).symm, rfl⟩
  obtain ⟨exc, c', hrun, rfl, rfl⟩ := hrun
  exact hrun

end

/-! ## Two shared collections -/

section

attribute [local instance] UnicodeData.ascii

/-- A QSO without a hash. -/
def unhashedDoc (n : BitVec 96) : Doc := (∅ : Doc).insert "_id" (.oid ⟨n⟩)

/-- A QSO whose hash is an array, with the hash of another in it. -/
def arrayDoc : Doc :=
  (unhashedDoc 2).insert "rowHash" (.list [.str (canonicalDocumentHash (unhashedDoc 1))])

theorem getElem?_unhashedDoc {n : BitVec 96} {k : String} :
    (unhashedDoc n)[k]? = if k = "_id" then some (.oid ⟨n⟩) else none := by
  rw [unhashedDoc, Doc.getElem?_insert, Std.ExtTreeMap.getElem?_empty]

theorem stored_unhashedDoc {n : BitVec 96} : (unhashedDoc n).Stored :=
  stored_insert stored_empty (by decide) rfl

/-- A shared collection with a hash that is an array. -/
def arrayLog : Collection where
  fullName := "ollog.qsos"
  rowHashUnique := false
  docs := [unhashedDoc 1, arrayDoc]
  docs_stored := List.forall_mem_cons.2 ⟨stored_unhashedDoc, List.forall_mem_singleton.2
    (stored_insert stored_unhashedDoc (by decide) rfl)⟩
  ids_present := by decide +kernel
  ids_ok := by decide +kernel
  ids_distinct := by decide +kernel
  hashes_distinct h := nomatch h

/-- A QSO that has a hash. -/
def hashedDoc : Doc := (unhashedDoc 3).insert "rowHash" (.str "0")

/-- A QSO without a hash that shares its hash with no other. -/
def loneDoc : Doc := (unhashedDoc 4).insert "CALL" (.str "W1AW")

/-- A shared collection of two QSOs that have their hash in common, and of one of each other
kind. -/
def mixedLog : Collection where
  fullName := "ollog.qsos"
  rowHashUnique := false
  docs := [unhashedDoc 1, unhashedDoc 2, hashedDoc, loneDoc]
  docs_stored := List.forall_mem_cons.2 ⟨stored_unhashedDoc, List.forall_mem_cons.2
    ⟨stored_unhashedDoc, List.forall_mem_cons.2 ⟨stored_insert stored_unhashedDoc (by decide) rfl,
      List.forall_mem_singleton.2 (stored_insert stored_unhashedDoc (by decide) rfl)⟩⟩⟩
  ids_present := by decide +kernel
  ids_ok := by decide +kernel
  ids_distinct := by decide +kernel
  hashes_distinct h := nomatch h

theorem getElem?_rowHash_unhashedDoc {n : BitVec 96} : (unhashedDoc n)["rowHash"]? = none := by
  rw [getElem?_unhashedDoc, if_neg (by decide)]

theorem not_backfilled_array : Indexable arrayLog.docs ∧ arrayLog.rowHashUnique = false ∧
    unhashedDoc 1 ∈ arrayLog.docs ∧ Lone arrayLog.docs (unhashedDoc 1) ∧
    backfillQsoRowHash arrayLog = .error (.typeError "unhashable type: 'list'") arrayLog := by
  have harray : arrayDoc["rowHash"]? =
      some (.list [.str (canonicalDocumentHash (unhashedDoc 1))]) := by
    rw [arrayDoc, Doc.getElem?_insert, if_pos rfl]
  have hdocs : arrayLog.docs = [unhashedDoc 1, arrayDoc] := rfl
  have hmem : unhashedDoc 1 ∈ arrayLog.docs := List.mem_cons_self ..
  refine ⟨?_, rfl, hmem, ⟨getElem?_rowHash_unhashedDoc, ?_, ?_⟩, ?_⟩
  · rw [Indexable, hdocs, List.pairwise_pair, Doc.clash, getElem?_rowHash_unhashedDoc]
    rfl
  · rw [hdocs, List.forall_mem_cons, List.forall_mem_singleton, getElem?_rowHash_unhashedDoc, harray]
    constructor <;> (intro h; cases h)
  · rw [hdocs, List.forall_mem_cons, List.forall_mem_singleton, harray]
    exact ⟨fun _ _ ↦ rfl, fun h ↦ by cases h⟩
  · exact typeError_backfill_array hmem getElem?_rowHash_unhashedDoc
      (List.mem_cons_of_mem _ (List.mem_cons_self ..)) harray (List.mem_singleton.2 rfl)

theorem backfillQsoRowHash_mixed :
    ∃ report c', backfillQsoRowHash mixedLog = .ok report c' ∧
      c'.docs = [unhashedDoc 1, unhashedDoc 2, hashedDoc,
        loneDoc.insert "rowHash" (.str (canonicalDocumentHash loneDoc))] ∧
      ∀ d ∈ c'.docs, d["rowHash"]? = none →
        ∃! group, group ∈ documentGroups mixedLog.docs ∧ Doc.get d "_id" .null ∈ group.2 := by
  have hindexable : Indexable mixedLog.docs := by
    rw [Indexable]
    decide +kernel
  have hscalar : ScalarHashes mixedLog.docs := by
    have htext : ∀ d ∈ mixedLog.docs, d["rowHash"]? = none ∨ d["rowHash"]? = some (.str "0") := by
      decide +kernel
    intro d hd xs hxs
    rcases htext d hd with h | h <;> cases h.symm.trans hxs
  have hstamped : mixedLog.docs.map (stampRowHash mixedLog.docs) = [unhashedDoc 1, unhashedDoc 2,
      hashedDoc, loneDoc.insert "rowHash" (.str (canonicalDocumentHash loneDoc))] := by
    have hlone : ¬ Lone mixedLog.docs (unhashedDoc 1) ∧ ¬ Lone mixedLog.docs (unhashedDoc 2) ∧
        ¬ Lone mixedLog.docs hashedDoc ∧ Lone mixedLog.docs loneDoc := by
      decide +kernel
    obtain ⟨h₁, h₂, h₃, h₄⟩ := hlone
    change [stampRowHash _ (unhashedDoc 1), stampRowHash _ (unhashedDoc 2),
      stampRowHash _ hashedDoc, stampRowHash _ loneDoc] = _
    simp only [stampRowHash, if_neg h₁, if_neg h₂, if_neg h₃, if_pos h₄]
  obtain ⟨report, c', hrun, hdocs, -, -, -, hgroup, -⟩ := backfillQsoRowHash_ok hindexable hscalar
  exact ⟨report, c', hrun, hdocs.trans hstamped, hgroup⟩

end

end Ollog

import Ollog.Bson.Bulk
import Ollog.Bson.Upsert
import Ollog.Qso.Model

/-!
# Bringing the shared QSOs up to date

Each start of the application runs three migrations on the shared collection: `backfillCreatedAt`
stamps the documents without a `_created_at`, `normalizeTimeOn` pads a `TIME_ON` of four digits to
six, and `backfillQsoRowHash` stamps the documents without a `rowHash` with the hash of what they
have become.

Each is a pass over the documents that leaves the `_id`s alone, so that what it does to a collection
is what it does to its documents (`wp_backfills`), and finds nothing left to do the next time
(`backfilled_again`).  The second changes a field that is hashed, and the third passes over a
document that has its hash already: that is where a document leaves its hash behind
(`truthful_backfilled_iff`).
-/

set_option autoImplicit false

namespace Ollog

open Effects Relation

/-! ## The migrations -/

/-- `oid.generation_time`. -/
def ObjectId.generationTime (oid : ObjectId) : DateTime where
  wall := (dayNumber 1970 1 1 * 86400 + (oid.val.toNat / 2 ^ 64 : Nat)) * 1000000
  offset := some 0

/-- The `_created_at` of a document that has none. -/
def createdAtOf (now : DateTime) : Value → DateTime
  | .oid oid => oid.generationTime
  | _ => now

/-- The update `backfill_created_at` makes for a document. -/
def createdAtUpdate (now : DateTime) (doc : Doc) : UpdateOne where
  id := Doc.get doc "_id" .null
  fields := (∅ : Doc).insert "_created_at" (.datetime (createdAtOf now (Doc.get doc "_id" .null)))

/-- `backfill_created_at`. -/
def backfillCreatedAt (now : DateTime) : Db Unit := do
  let docs ← findAll fun d ↦ d["_created_at"]?.isNone
  let ops := docs.map (createdAtUpdate now)
  if ops ≠ [] then
    let _ ← bulkWrite ops

/-- `^\d{4}$`, which allows for a newline at the end. -/
def isHhmm (s : String) : Bool :=
  let cs := if s.toList.getLast? = some '\n' then s.toList.dropLast else s.toList
  cs.length == 4 && cs.all Char.isDigit

/-- The query `{"TIME_ON": {"$regex": r"^\d{4}$"}}`. -/
def hasHhmm (d : Doc) : Bool :=
  d.fieldMatches "TIME_ON" fun
    | .str s => isHhmm s
    | _ => false

/-- `{"$set": {"TIME_ON": {"$concat": ["$TIME_ON", "00"]}}}`, of a document the query has found. -/
def padTimeOn (doc : Doc) : Db Unit :=
  match doc["TIME_ON"]? with
  | some (.str s) => updateOne (Doc.get doc "_id" .null) ((∅ : Doc).insert "TIME_ON" (.str (s ++ "00")))
  | _ => throw (.writeError "$concat only supports strings, not array")

/-- `normalize_time_on`. -/
def normalizeTimeOn : Db Unit := do
  (← findAll hasHhmm).forM padTimeOn

section

variable [UnicodeData]

/-- The report of `backfill_qso_row_hash`. -/
structure RowHashReport where
  updated : Nat
  skippedDuplicates : Nat
  /-- Each with the hash its documents have in common, and their ids. -/
  duplicateGroups : List (String × List String)

/-- `all_ids`: the documents that have a hash, and those that would get it. -/
def idsOfHash (existing missing : List Doc) (rowHash : String) : List Value :=
  (existing.filter fun d ↦ d["rowHash"]? == some (.str rowHash)).map (Doc.get · "_id" .null) ++
    (missing.filter fun d ↦ canonicalDocumentHash d == rowHash).map (Doc.get · "_id" .null)

/-- The update that stamps the one document of a hash. -/
def rowHashUpdate (rowHash : String) (id : Value) : UpdateOne where
  id := id
  query d := d["rowHash"]?.isNone
  fields := (∅ : Doc).insert "rowHash" (.str rowHash)

/-- What is to be done about a hash. -/
def rowHashOp (existing missing : List Doc) (rowHash : String) : Option UpdateOne :=
  match idsOfHash existing missing rowHash with
  | [id] => some (rowHashUpdate rowHash id)
  | _ => none

/-- What is reported of a hash. -/
def duplicateGroup (existing missing : List Doc) (rowHash : String) :
    Option (String × List String) :=
  if (idsOfHash existing missing rowHash).length > 1 then
    some (rowHash, (idsOfHash existing missing rowHash).map (·.pyStr))
  else none

/-- `existing_by_hash[doc["rowHash"]]`, for every document of the query. -/
def hashable (existing : List Doc) : Except PyErr Unit :=
  existing.forM fun d ↦ match d["rowHash"]? with
    | some (.list _) => throw (.typeError "unhashable type: 'list'")
    | _ => pure ()

/-- `backfill_qso_row_hash`. -/
def backfillQsoRowHash : Db RowHashReport := do
  let missing ← findAll fun d ↦ d["rowHash"]?.isNone
  let hashes := (missing.map canonicalDocumentHash).eraseDups
  if hashes = [] then
    createIndexes
    return { updated := 0, skippedDuplicates := 0, duplicateGroups := [] }
  else
    let existing ← findAll (Doc.fieldMatches · "rowHash" fun v ↦ hashes.any (v == .str ·))
    ofExcept (hashable existing)
    let ops := hashes.filterMap (rowHashOp existing missing)
    let groups := hashes.filterMap (duplicateGroup existing missing)
    let updated ← if ops ≠ [] then bulkWrite ops else pure 0
    createIndexes
    return {
      updated := updated
      skippedDuplicates := (groups.map (·.2.length)).sum
      duplicateGroups := groups }

/-- The migrations of the shared collection. -/
def backfills (now : DateTime) : Db Unit := do
  backfillCreatedAt now
  normalizeTimeOn
  let _ ← backfillQsoRowHash

end

/-! ## What each of them does to a document -/

section

variable {c : Collection} {docs : List Doc} {now now' : DateTime} {d e : Doc}

/-- A document with its `_created_at`. -/
def stampCreatedAt (now : DateTime) (d : Doc) : Doc :=
  if d["_created_at"]?.isNone then d ∪ Doc.toStored (createdAtUpdate now d).fields else d

theorem wp_backfillCreatedAt :
    wp (backfillCreatedAt now) (fun _ ↦ Stamped c (stampCreatedAt now)) (fun _ _ ↦ False) c := by
  have hid : ∀ d ∈ c.docs, d["_id"]? = some (createdAtUpdate now d).id :=
    fun d hd ↦ Collection.id_get hd
  have hbatch : Batch c ((c.docs.filter fun d ↦ d["_created_at"]?.isNone).map
      (createdAtUpdate now)) :=
    Batch.map (k := "_created_at")
      (v := fun d ↦ .datetime (createdAtOf now (Doc.get d "_id" .null))) hid (fun _ _ ↦ rfl)
      (by decide) (by rw [noZero]; decide) (fun _ _ ↦ rfl) (by decide) List.filter_sublist
      (fun _ _ ↦ rfl) fun hunique d hd e he hne ↦ compatible_of_notMem (fun op hop ↦ by
        obtain ⟨d, -, rfl⟩ := List.mem_map.1 hop
        simp [createdAtUpdate]) hunique hd he hne
  have hstamped : ∀ c', Stamped c (stampBy ((c.docs.filter fun d ↦ d["_created_at"]?.isNone).map
      (createdAtUpdate now))) c' → Stamped c (stampCreatedAt now) c' := fun _ h ↦ .of_filter hid h
  simp only [backfillCreatedAt, wp_bind, wp_findAll, wp_ite, wp_pure]
  refine ⟨fun _ ↦ ?_, fun hnil ↦ ?_⟩
  · exact wp_mono (wp_bulkWrite_of_batch hbatch) (fun _ _ ↦ hstamped _) fun _ _ h ↦ h
  · refine hstamped c ?_
    rw [not_not.1 hnil]
    exact ⟨c.docs.map_id'.symm, rfl, rfl⟩

/-- Whether the pass over `TIME_ON` stops at a document. -/
def stopsAt (d : Doc) : Bool :=
  hasHhmm d && match d["TIME_ON"]? with
    | some (.str _) => false
    | _ => true

/-- A document with its `TIME_ON` padded. -/
def padded (d : Doc) : Doc :=
  match d["TIME_ON"]? with
  | some (.str s) => if isHhmm s then d.insert "TIME_ON" (.str (s ++ "00")) else d
  | _ => d

/-- The documents after the pass over `TIME_ON`. -/
def padDocs (docs : List Doc) : List Doc :=
  (docs.takeWhile (!stopsAt ·)).map padded ++ docs.dropWhile (!stopsAt ·)

/-- The update `padTimeOn` makes for a document. -/
def timeOnUpdate (doc : Doc) : UpdateOne where
  id := Doc.get doc "_id" .null
  fields := match doc["TIME_ON"]? with
    | some (.str s) => (∅ : Doc).insert "TIME_ON" (.str (s ++ "00"))
    | _ => ∅

theorem padded_of_not_hasHhmm (h : hasHhmm d = false) : padded d = d := by
  rw [padded]
  split
  · rename_i s hs
    rw [hasHhmm, Doc.fieldMatches, hs] at h
    rw [if_neg (by simpa using h)]
  · rfl

theorem union_insert_empty {k : String} {v : Value} (hv : v.toStored = v) :
    d ∪ Doc.toStored ((∅ : Doc).insert k v) = d.insert k v := by
  refine Std.ExtTreeMap.ext_getElem? fun k' ↦ ?_
  rw [Doc.getElem?_update, Doc.getElem?_toStored, Doc.getElem?_insert, Doc.getElem?_insert]
  split
  · rw [Option.map_some, hv, Option.some_or]
  · simp

theorem exists_str_of_hasHhmm (h : hasHhmm d = true) (hstop : stopsAt d = false) :
    ∃ s, d["TIME_ON"]? = some (.str s) ∧ isHhmm s = true := by
  rw [stopsAt, h, Bool.true_and] at hstop
  split at hstop
  · rename_i s hs
    rw [hasHhmm, Doc.fieldMatches, hs] at h
    exact ⟨s, hs, by simpa using h⟩
  · cases hstop

theorem stopsAt_eq_true (h : stopsAt d = true) :
    hasHhmm d = true ∧ ∀ s, d["TIME_ON"]? ≠ some (.str s) := by
  rw [stopsAt, Bool.and_eq_true] at h
  refine ⟨h.1, fun s hs ↦ ?_⟩
  rw [hs] at h
  exact Bool.false_ne_true h.2

theorem padTimeOn_eq (h : hasHhmm d = true) (hstop : stopsAt d = false) :
    padTimeOn d = updateOne (timeOnUpdate d).id (timeOnUpdate d).fields ∧
      padded d = d ∪ Doc.toStored (timeOnUpdate d).fields := by
  obtain ⟨s, hs, hmatch⟩ := exists_str_of_hasHhmm h hstop
  rw [padTimeOn, padded, timeOnUpdate, hs]
  exact ⟨rfl, (if_pos hmatch).trans (union_insert_empty rfl).symm⟩

/-- The pass over documents none of which it stops at. -/
theorem wp_padAll {todo : List Doc} (hsub : todo.Sublist c.docs)
    (htodo : ∀ d ∈ todo, hasHhmm d = true ∧ stopsAt d = false) :
    wp (forM todo padTimeOn) (fun _ ↦ Stamped c (stampBy (todo.map timeOnUpdate)))
      (fun _ _ ↦ False) c := by
  have hbatch : Batch c (todo.map timeOnUpdate) := by
    refine Batch.map (k := "TIME_ON")
      (v := fun d ↦ match d["TIME_ON"]? with
        | some (.str s) => .str (s ++ "00")
        | _ => .null)
      (fun d hd ↦ Collection.id_get hd) (fun d hd ↦ ?_) (by decide) (by rw [noZero]; decide)
      (fun d hd ↦ ?_) (by decide) hsub (fun _ _ ↦ rfl) fun hunique d hd e he hne ↦
        compatible_of_notMem (fun op hop ↦ ?_) hunique hd he hne
    · obtain ⟨s, hs, -⟩ := exists_str_of_hasHhmm (htodo d hd).1 (htodo d hd).2
      rw [timeOnUpdate, hs]
    · split <;> rfl
    · obtain ⟨d, -, rfl⟩ := List.mem_map.1 hop
      rw [timeOnUpdate]
      split <;> simp
  have hforM : ∀ todo : List Doc, (∀ d ∈ todo, hasHhmm d = true ∧ stopsAt d = false) →
      (forM todo padTimeOn : Db PUnit) =
        forM (todo.map timeOnUpdate) fun op ↦ updateOne op.id op.fields := by
    intro todo
    induction todo with
    | nil => exact fun _ ↦ rfl
    | cons d todo ih =>
      intro h
      obtain ⟨hd, hstop⟩ := h d (List.mem_cons_self ..)
      rw [List.forM_cons, List.map_cons, List.forM_cons, (padTimeOn_eq hd hstop).1,
        ih fun e he ↦ h e (List.mem_cons_of_mem _ he)]
  rw [hforM todo htodo]
  exact wp_updateAll_of_batch hbatch

theorem wp_normalizeTimeOn :
    wp normalizeTimeOn
      (fun _ c' ↦ c'.docs = padDocs c.docs ∧ c'.rowHashUnique = c.rowHashUnique ∧
        c'.fullName = c.fullName ∧ ∀ d ∈ c.docs, stopsAt d = false)
      (fun _ c' ↦ c'.docs = padDocs c.docs ∧ ∃ d ∈ c.docs, stopsAt d = true) c := by
  have hsplit := List.takeWhile_append_dropWhile (p := (!stopsAt ·)) (l := c.docs)
  set before := c.docs.takeWhile (!stopsAt ·) with hbefore
  set rest := c.docs.dropWhile (!stopsAt ·) with hrest
  have hgo : ∀ d ∈ before, stopsAt d = false := fun d hd ↦ by
    have hall := List.all_eq_true.1 (List.all_takeWhile (p := (!stopsAt ·)) (l := c.docs)) d hd
    simpa using hall
  have hbeforesub : (before.filter hasHhmm).Sublist c.docs :=
    List.filter_sublist.trans (List.takeWhile_sublist _)
  have hpad := wp_padAll hbeforesub fun d hd ↦
    ⟨(List.mem_filter.1 hd).2, hgo d (List.mem_filter.1 hd).1⟩
  have hdocs : ∀ c', Stamped c (stampBy ((before.filter hasHhmm).map timeOnUpdate)) c' →
      c'.docs = padDocs c.docs := by
    intro c' h
    have hstamp := fun d hd ↦ stampBy_map (c := c) (f := timeOnUpdate) (d := d)
      (fun d hd ↦ Collection.id_get hd) hbeforesub hd
    rw [h.docs, padDocs, ← hbefore, ← hrest, ← hsplit, List.map_append]
    refine congrArg₂ _ (List.map_congr_left fun d hd ↦ ?_)
      ((List.map_congr_left fun d hd ↦ ?_).trans rest.map_id')
    · obtain ⟨hin, hout⟩ := hstamp d (hsplit ▸ List.mem_append_left _ hd)
      rw [List.mem_filter] at hin hout
      cases hhhmm : hasHhmm d with
      | true => rw [hin ⟨hd, hhhmm⟩, (padTimeOn_eq hhhmm (hgo d hd)).2]
      | false =>
        rw [padded_of_not_hasHhmm hhhmm, hout fun h ↦ Bool.false_ne_true (hhhmm.symm.trans h.2)]
    · have hdoc : d ∈ c.docs := hsplit ▸ List.mem_append_right _ hd
      refine (hstamp d hdoc).2 fun hmem ↦ ?_
      have hids := c.ids_distinct
      rw [← hsplit, List.pairwise_append] at hids
      have hclash := hids.2.2 d (List.mem_filter.1 hmem).1 d hd
      rw [Doc.clash, c.ids_present d hdoc, beq_self_eq_true] at hclash
      cases hclash
  have hmatched : c.docs.filter hasHhmm = before.filter hasHhmm ++ rest.filter hasHhmm := by
    rw [← List.filter_append, hsplit]
  have hforM : ∀ todo todo' : List Doc, (todo ++ todo').forM padTimeOn =
      ((do forM todo padTimeOn; forM todo' padTimeOn) : Db PUnit) := by
    intro todo todo'
    rw [List.forM_eq_forM, List.forM_append]
  simp only [normalizeTimeOn, wp_bind, wp_findAll, hmatched, hforM]
  refine wp_mono hpad (fun _ c' h ↦ ?_) fun _ _ h ↦ h.elim
  cases hcases : rest with
  | nil =>
    rw [List.filter_nil, List.forM_nil, wp_pure]
    refine ⟨hdocs c' h, h.rowHashUnique, h.fullName, fun d hd ↦ hgo d ?_⟩
    rwa [← hsplit, hcases, List.append_nil] at hd
  | cons d rest' =>
    have hstop : stopsAt d = true := by
      have hhead := List.head?_dropWhile_not (!stopsAt ·) c.docs
      rw [← hrest, hcases] at hhead
      simpa using hhead
    obtain ⟨hhhmm, hstr⟩ := stopsAt_eq_true hstop
    rw [List.filter_cons_of_pos hhhmm, List.forM_cons, wp_bind, padTimeOn]
    split
    · rename_i s hs
      exact absurd hs (hstr s)
    · rw [wp_throw]
      exact ⟨hdocs c' h, d, hsplit ▸ hcases ▸ List.mem_append_right _ (List.mem_cons_self ..),
        hstop⟩

/-- The one document of its hash, which has yet to get it. -/
def Lone [UnicodeData] (docs : List Doc) (d : Doc) : Prop :=
  d["rowHash"]? = none ∧
    (∀ e ∈ docs, e["rowHash"]? ≠ some (.str (canonicalDocumentHash d))) ∧
    ∀ e ∈ docs, e["rowHash"]? = none → canonicalDocumentHash e = canonicalDocumentHash d → e = d

instance [UnicodeData] : Decidable (Lone docs d) := by
  unfold Lone
  infer_instance

/-- A document with its `rowHash`. -/
def stampRowHash [UnicodeData] (docs : List Doc) (d : Doc) : Doc :=
  if Lone docs d then d.insert "rowHash" (.str (canonicalDocumentHash d)) else d

/-- Documents whose hashes, where they have one, are texts. -/
def TextHashes (docs : List Doc) : Prop :=
  ∀ d ∈ docs, ∀ v, d["rowHash"]? = some v → ∃ s, v = .str s

theorem nodup_docs (c : Collection) : c.docs.Nodup := by
  refine c.ids_distinct.imp_of_mem fun {d e} hd _ hclash heq ↦ ?_
  rw [← heq, Doc.clash, c.ids_present d hd, beq_self_eq_true] at hclash
  cases hclash

/-- The documents without a hash. -/
def missingRowHash (docs : List Doc) : List Doc := docs.filter fun d ↦ d["rowHash"]?.isNone

/-- The hashes they are going to have. -/
def missingHashes [UnicodeData] (docs : List Doc) : List String :=
  ((missingRowHash docs).map canonicalDocumentHash).eraseDups

/-- The documents that have such a hash. -/
def existingRowHash [UnicodeData] (docs : List Doc) : List Doc :=
  docs.filter (Doc.fieldMatches · "rowHash" fun v ↦ (missingHashes docs).any (v == .str ·))

theorem mem_missingRowHash : d ∈ missingRowHash docs ↔ d ∈ docs ∧ d["rowHash"]? = none := by
  rw [missingRowHash, List.mem_filter, Option.isNone_iff_eq_none]

theorem mem_missingHashes [UnicodeData] {h : String} :
    h ∈ missingHashes docs ↔ ∃ d ∈ docs, d["rowHash"]? = none ∧ canonicalDocumentHash d = h := by
  rw [missingHashes, List.mem_eraseDups, List.mem_map]
  simp only [mem_missingRowHash, and_assoc]

theorem nodup_eraseDups {α : Type} [BEq α] [LawfulBEq α] : ∀ xs : List α, xs.eraseDups.Nodup
  | [] => List.nodup_nil
  | x :: xs => by
    rw [List.eraseDups_cons, List.nodup_cons]
    refine ⟨fun hmem ↦ ?_, nodup_eraseDups _⟩
    rw [List.mem_eraseDups, List.mem_filter] at hmem
    simp at hmem
termination_by xs => xs.length
decreasing_by
  exact Nat.lt_succ_of_le (List.length_filter_le _ _)

theorem mem_existingRowHash [UnicodeData] {h : String} (hh : h ∈ missingHashes docs) :
    (∃ e ∈ existingRowHash docs, e["rowHash"]? = some (.str h)) ↔
      ∃ e ∈ docs, e["rowHash"]? = some (.str h) := by
  constructor
  · rintro ⟨e, he, heq⟩
    exact ⟨e, (List.mem_filter.1 he).1, heq⟩
  · rintro ⟨e, he, heq⟩
    refine ⟨e, List.mem_filter.2 ⟨he, ?_⟩, heq⟩
    rw [Doc.fieldMatches, heq]
    exact List.any_eq_true.2 ⟨h, hh, beq_self_eq_true _⟩

/-- **A group of one**: the documents of a hash are one if and only if it is a lone one. -/
theorem idsOfHash_eq_singleton [UnicodeData] {h : String} {id : Value}
    (hh : h ∈ missingHashes c.docs) :
    idsOfHash (existingRowHash c.docs) (missingRowHash c.docs) h = [id] ↔
      ∃ d ∈ c.docs, Lone c.docs d ∧ canonicalDocumentHash d = h ∧ id = Doc.get d "_id" .null := by
  obtain ⟨d₀, hd₀, hmissing₀, hhash₀⟩ := mem_missingHashes.1 hh
  set A := (existingRowHash c.docs).filter fun d ↦ d["rowHash"]? == some (.str h) with hA
  set B := (missingRowHash c.docs).filter fun d ↦ canonicalDocumentHash d == h with hB
  have hmemA : A = [] ↔ ∀ e ∈ c.docs, e["rowHash"]? ≠ some (.str h) := by
    rw [hA, List.filter_eq_nil_iff]
    simp only [beq_iff_eq]
    have hex := not_congr (mem_existingRowHash hh)
    push Not at hex
    exact hex
  have hmemB : ∀ e, e ∈ B ↔ e ∈ c.docs ∧ e["rowHash"]? = none ∧ canonicalDocumentHash e = h := by
    intro e
    rw [hB, List.mem_filter, mem_missingRowHash, beq_iff_eq, and_assoc]
  have hids : idsOfHash (existingRowHash c.docs) (missingRowHash c.docs) h =
      A.map (Doc.get · "_id" .null) ++ B.map (Doc.get · "_id" .null) := rfl
  rw [hids, List.append_eq_singleton_iff]
  constructor
  · rintro (⟨hnil, hone⟩ | ⟨-, hnil⟩)
    · rw [List.map_eq_nil_iff] at hnil
      obtain ⟨d, hd, rfl⟩ := List.map_eq_singleton_iff.1 hone
      obtain ⟨hdoc, hmissing, hhash⟩ := (hmemB d).1 (hd ▸ List.mem_cons_self ..)
      refine ⟨d, hdoc, ⟨hmissing, hhash ▸ hmemA.1 hnil, fun e he hemissing hehash ↦ ?_⟩, hhash, rfl⟩
      have hmem := (hmemB e).2 ⟨he, hemissing, hehash.trans hhash⟩
      rwa [hd, List.mem_singleton] at hmem
    · rw [List.map_eq_nil_iff] at hnil
      exact absurd ((hmemB d₀).2 ⟨hd₀, hmissing₀, hhash₀⟩) (hnil ▸ List.not_mem_nil)
  · rintro ⟨d, hd, hlone, rfl, rfl⟩
    have hall : ∀ e ∈ B, e = d := fun e he ↦
      let ⟨hdoc, hmissing, hhash⟩ := (hmemB e).1 he
      hlone.2.2 e hdoc hmissing hhash
    have hnodup : B.Nodup := ((nodup_docs c).filter _).filter _
    have hone : B = [d] := by
      have hmem := (hmemB d).2 ⟨hd, hlone.1, rfl⟩
      have hreplicate := List.eq_replicate_of_mem hall
      rw [hreplicate] at hnodup hmem ⊢
      have hlength := List.nodup_replicate.1 hnodup
      obtain ⟨hpos, -⟩ := List.mem_replicate.1 hmem
      rw [show B.length = 1 by omega]
      rfl
    exact .inl ⟨by rw [hmemA.2 hlone.2.1, List.map_nil], by rw [hone, List.map_singleton]⟩

/-- The updates of the pass over `rowHash`. -/
def rowHashOps [UnicodeData] (docs : List Doc) : List UpdateOne :=
  (missingHashes docs).filterMap (rowHashOp (existingRowHash docs) (missingRowHash docs))

theorem rowHashOp_eq_some [UnicodeData] {h : String} {op : UpdateOne}
    (hh : h ∈ missingHashes c.docs) :
    rowHashOp (existingRowHash c.docs) (missingRowHash c.docs) h = some op ↔
      ∃ d ∈ c.docs, Lone c.docs d ∧ canonicalDocumentHash d = h ∧
        op = rowHashUpdate h (Doc.get d "_id" .null) := by
  rw [rowHashOp]
  split
  · rename_i id hid
    obtain ⟨d, hd, hlone, hhash, rfl⟩ := (idsOfHash_eq_singleton hh).1 hid
    rw [Option.some.injEq]
    refine ⟨fun hop ↦ ⟨d, hd, hlone, hhash, hop.symm⟩, ?_⟩
    rintro ⟨e, he, helone, hehash, rfl⟩
    rw [helone.2.2 d hd hlone.1 (hhash.trans hehash.symm)]
  · rename_i hno
    refine ⟨fun hop ↦ (nomatch hop), ?_⟩
    rintro ⟨d, hd, hlone, hhash, -⟩
    exact absurd ((idsOfHash_eq_singleton hh).2 ⟨d, hd, hlone, hhash, rfl⟩) (hno _)

theorem mem_rowHashOps [UnicodeData] {op : UpdateOne} : op ∈ rowHashOps c.docs ↔
    ∃ d ∈ c.docs, Lone c.docs d ∧
      op = rowHashUpdate (canonicalDocumentHash d) (Doc.get d "_id" .null) := by
  rw [rowHashOps, List.mem_filterMap]
  constructor
  · rintro ⟨h, hh, hop⟩
    obtain ⟨d, hd, hlone, rfl, rfl⟩ := (rowHashOp_eq_some hh).1 hop
    exact ⟨d, hd, hlone, rfl⟩
  · rintro ⟨d, hd, hlone, rfl⟩
    have hh := mem_missingHashes.2 ⟨d, hd, hlone.1, rfl⟩
    exact ⟨_, hh, (rowHashOp_eq_some hh).2 ⟨d, hd, hlone, rfl, rfl⟩⟩

theorem pairwise_rowHashOps [UnicodeData] :
    (rowHashOps c.docs).Pairwise fun op op' ↦ op.id ≠ op'.id := by
  rw [rowHashOps, List.pairwise_filterMap]
  refine (nodup_eraseDups _).imp_of_mem fun {h h'} hh hh' hne op hop op' hop' hid ↦ hne ?_
  obtain ⟨d, hd, -, rfl, rfl⟩ := (rowHashOp_eq_some hh).1 hop
  obtain ⟨d', hd', -, rfl, rfl⟩ := (rowHashOp_eq_some hh').1 hop'
  have hget : d["_id"]? = d'["_id"]? := by
    rw [Collection.id_get hd, Collection.id_get hd']
    exact congrArg some hid
  rw [Collection.eq_of_id_eq hd hd' hget]

theorem stampBy_rowHashOps [UnicodeData] (hd : d ∈ c.docs) :
    stampBy (rowHashOps c.docs) d = stampRowHash c.docs d := by
  rw [stampRowHash]
  split
  · rename_i hlone
    rw [stampBy_of_mem pairwise_rowHashOps (mem_rowHashOps.2 ⟨d, hd, hlone, rfl⟩)
      (Collection.id_get hd)]
    exact union_insert_empty rfl
  · rename_i hlone
    refine stampBy_of_forall_ne fun op hop hid ↦ hlone ?_
    obtain ⟨e, he, helone, rfl⟩ := mem_rowHashOps.1 hop
    rwa [Collection.eq_of_id_eq hd he (hid.trans (Collection.id_get he).symm)]

theorem getElem?_stampRowHash [UnicodeData] {k : String} (hk : k ≠ "rowHash") :
    (stampRowHash docs d)[k]? = d[k]? := by
  rw [stampRowHash]
  split
  · rw [Doc.getElem?_insert, if_neg hk]
  · rfl

theorem getElem?_stampRowHash_self [UnicodeData] : (stampRowHash docs d)["rowHash"]? =
    if Lone docs d then some (.str (canonicalDocumentHash d)) else d["rowHash"]? := by
  rw [stampRowHash]
  split
  · rw [Doc.getElem?_insert, if_pos rfl]
  · rfl

theorem clash_rowHash_eq_false : Doc.clash "rowHash" d e = false ↔
    (d["rowHash"]? ≠ none → d["rowHash"]? ≠ e["rowHash"]?) := by
  rw [Doc.clash, Bool.and_eq_false_iff, beq_eq_false_iff_ne, Option.isSome_eq_false_iff,
    Option.isNone_iff_eq_none, or_iff_not_imp_left]

/-- A stamped document has a hash that no other has. -/
theorem clash_stampRowHash [UnicodeData] (hne : d ≠ e) (hd : d ∈ docs) (he : e ∈ docs)
    (hclash : Doc.clash "rowHash" d e = false) :
    Doc.clash "rowHash" (stampRowHash docs d) (stampRowHash docs e) = false ∧
      Doc.clash "rowHash" (stampRowHash docs d) e = false := by
  rw [clash_rowHash_eq_false] at hclash
  rw [clash_rowHash_eq_false, clash_rowHash_eq_false, getElem?_stampRowHash_self,
    getElem?_stampRowHash_self]
  by_cases hlone : Lone docs d
  · rw [if_pos hlone]
    refine ⟨fun _ ↦ ?_, fun _ ↦ (hlone.2.1 e he).symm⟩
    split
    · rename_i helone
      intro heq
      rw [Option.some.injEq, Value.str.injEq] at heq
      exact hne (hlone.2.2 e he helone.1 heq.symm).symm
    · exact (hlone.2.1 e he).symm
  · rw [if_neg hlone]
    refine ⟨fun hsome ↦ ?_, hclash⟩
    split
    · rename_i helone
      exact helone.2.1 d hd
    · exact hclash hsome

theorem batch_rowHashOps [UnicodeData] : Batch c (rowHashOps c.docs) := by
  refine ⟨?_, ?_, ?_, ?_, pairwise_rowHashOps, fun hunique d hd e he hne ↦ ?_⟩
  rotate_right
  · rw [stampBy_rowHashOps hd, stampBy_rowHashOps he]
    exact clash_stampRowHash hne hd he ((c.hashes_distinct hunique).forall hd he hne)
  all_goals
    intro op hop
    obtain ⟨d, hd, hlone, rfl⟩ := mem_rowHashOps.1 hop
  · exact ⟨d, hd, Collection.id_get hd, by simp [rowHashUpdate, hlone.1]⟩
  · rw [Doc.encodable_iff]
    intro k v hv
    rw [rowHashUpdate, Doc.getElem?_insert] at hv
    split at hv
    · rename_i hk
      cases hv
      exact ⟨hk ▸ (by decide), rfl⟩
    · simp at hv
  · intro k hk
    rw [rowHashUpdate, Std.ExtTreeMap.mem_insert, Std.compare_eq_iff_eq] at hk
    obtain rfl | hk := hk
    · decide
    · exact absurd hk Std.ExtTreeMap.not_mem_empty
  · simp [rowHashUpdate]

/-- Documents none of whose hashes is an array. -/
def ScalarHashes (docs : List Doc) : Prop :=
  ∀ d ∈ docs, ∀ xs, d["rowHash"]? ≠ some (.list xs)

theorem TextHashes.scalarHashes (h : TextHashes docs) : ScalarHashes docs := by
  intro d hd xs hxs
  obtain ⟨s, hs⟩ := h d hd _ hxs
  cases hs

/-- No hash is looked up in vain. -/
theorem hashable_existing [UnicodeData] (h : ScalarHashes docs) :
    hashable (existingRowHash docs) = .ok () := by
  have hall : ∀ existing : List Doc, ScalarHashes existing → hashable existing = .ok () := by
    intro existing
    induction existing with
    | nil => exact fun _ ↦ rfl
    | cons d existing ih =>
      intro h
      have hrest := ih fun e he ↦ h e (List.mem_cons_of_mem _ he)
      rw [hashable, List.forM_eq_forM] at hrest ⊢
      rw [List.forM_cons, hrest]
      split
      · rename_i xs hxs
        exact absurd hxs (h d (List.mem_cons_self ..) xs)
      · rfl
  exact hall _ fun d hd ↦ h d (List.mem_filter.1 hd).1

/-- The groups the pass over `rowHash` reports. -/
def duplicateGroups [UnicodeData] (docs : List Doc) : List (String × List String) :=
  (missingHashes docs).filterMap (duplicateGroup (existingRowHash docs) (missingRowHash docs))

theorem stampRowHash_of_missingHashes_eq_nil [UnicodeData] (h : missingHashes docs = [])
    (hd : d ∈ docs) : stampRowHash docs d = d := by
  refine if_neg fun hlone ↦ ?_
  have hmem := mem_missingHashes.2 ⟨d, hd, hlone.1, rfl⟩
  rw [h] at hmem
  exact absurd hmem List.not_mem_nil

/-- What the pass over `rowHash` leaves of a collection, and what it reports. -/
structure RowHashPass [UnicodeData] (c : Collection) (report : RowHashReport) (c' : Collection) :
    Prop where
  docs : c'.docs = c.docs.map (stampRowHash c.docs)
  rowHashUnique : c'.rowHashUnique = true
  fullName : c'.fullName = c.fullName
  groups : report.duplicateGroups = duplicateGroups c.docs
  updated : rowHashOps c.docs = [] → report.updated = 0

theorem wp_backfillQsoRowHash [UnicodeData] (h : ScalarHashes c.docs) :
    wp backfillQsoRowHash
      (fun report c' ↦ RowHashPass c report c' ∧ Indexable (c.docs.map (stampRowHash c.docs)))
      (fun _ c' ↦ c'.docs = c.docs.map (stampRowHash c.docs) ∧
        ¬ Indexable (c.docs.map (stampRowHash c.docs))) c := by
  have hstamped : ∀ c', Stamped c (stampBy (rowHashOps c.docs)) c' →
      Stamped c (stampRowHash c.docs) c' := fun c' h ↦
    ⟨h.docs.trans (List.map_congr_left fun d hd ↦ stampBy_rowHashOps hd), h.2, h.3⟩
  have hmissing : (c.docs.filter fun d ↦ d["rowHash"]?.isNone) = missingRowHash c.docs := rfl
  have hhashes : ((missingRowHash c.docs).map canonicalDocumentHash).eraseDups =
    missingHashes c.docs := rfl
  have hexisting : (c.docs.filter (Doc.fieldMatches · "rowHash" fun v ↦
    (missingHashes c.docs).any (v == .str ·))) = existingRowHash c.docs := rfl
  have hops : (missingHashes c.docs).filterMap
    (rowHashOp (existingRowHash c.docs) (missingRowHash c.docs)) = rowHashOps c.docs := rfl
  have hgroups : (missingHashes c.docs).filterMap
    (duplicateGroup (existingRowHash c.docs) (missingRowHash c.docs)) =
      duplicateGroups c.docs := rfl
  simp only [backfillQsoRowHash, wp_bind, wp_findAll, hmissing, hhashes, wp_ite, hexisting,
    hashable_existing h, wp_ofExcept, hops, hgroups, wp_pure]
  have hindex : ∀ {report : RowHashReport} {c'}, Stamped c (stampRowHash c.docs) c' →
      report.duplicateGroups = duplicateGroups c.docs →
      (rowHashOps c.docs = [] → report.updated = 0) →
      wp createIndexes (fun _ ↦ wp (pure report)
        (fun report c' ↦ RowHashPass c report c' ∧ Indexable (c.docs.map (stampRowHash c.docs)))
        (fun (_ : PyErr) c' ↦ c'.docs = c.docs.map (stampRowHash c.docs) ∧
          ¬ Indexable (c.docs.map (stampRowHash c.docs))))
      (fun _ c' ↦ c'.docs = c.docs.map (stampRowHash c.docs) ∧
        ¬ Indexable (c.docs.map (stampRowHash c.docs))) c' := by
    intro report c' h hreported hupdated
    refine wp_createIndexes_iff (fun c'' hdocs hunique hname hindexable ↦ ?_) fun hno _ ↦ ?_
    · rw [wp_pure]
      exact ⟨⟨hdocs.trans h.docs, hunique, hname.trans h.fullName, hreported, hupdated⟩,
        h.docs ▸ hindexable⟩
    · exact ⟨h.docs, h.docs ▸ hno⟩
  refine ⟨fun hnil ↦ hindex ⟨?_, rfl, rfl⟩ ?_ fun _ ↦ rfl,
    fun _ ↦ ⟨fun _ _ ↦ ⟨fun hsome ↦ ?_, fun hnil ↦ ?_⟩, ?_⟩⟩
  · refine (c.docs.map_id'.symm).trans (List.map_congr_left fun d hd ↦ ?_)
    exact (stampRowHash_of_missingHashes_eq_nil hnil hd).symm
  · rw [duplicateGroups, hnil, List.filterMap_nil]
  · refine wp_mono (wp_bulkWrite_of_batch batch_rowHashOps) (fun updated c' hc' ↦ ?_)
      fun _ _ h ↦ h.elim
    rw [wp_bind]
    exact hindex (hstamped c' hc') rfl fun hnil ↦ absurd hnil hsome
  · refine hindex (hstamped c ?_) rfl fun _ ↦ rfl
    rw [not_not.1 hnil]
    exact ⟨c.docs.map_id'.symm, rfl, rfl⟩
  · intro exc hexc
    cases hexc

/-! ## What they do together -/

/-- The documents of the shared collection after the migrations. -/
def backfilled [UnicodeData] (now : DateTime) (docs : List Doc) : List Doc :=
  let docs := padDocs (docs.map (stampCreatedAt now))
  if docs.any stopsAt then docs else docs.map (stampRowHash docs)

/-- Whether the migrations of the shared collection go through. -/
def BackfillsFit [UnicodeData] (now : DateTime) (docs : List Doc) : Prop :=
  (∀ d ∈ docs, stopsAt d = false) ∧ Indexable (backfilled now docs)

theorem getElem?_stampCreatedAt {k : String} (hk : k ≠ "_created_at") :
    (stampCreatedAt now d)[k]? = d[k]? := by
  rw [stampCreatedAt]
  split
  · rw [Doc.getElem?_update, createdAtUpdate, Doc.getElem?_toStored, Doc.getElem?_insert, if_neg hk]
    simp
  · rfl

theorem getElem?_padded {k : String} (hk : k ≠ "TIME_ON") : (padded d)[k]? = d[k]? := by
  rw [padded]
  split
  · split
    · rw [Doc.getElem?_insert, if_neg hk]
    · rfl
  · rfl

/-- All that the pass over `TIME_ON` looks at is `TIME_ON`. -/
theorem stopsAt_congr (h : d["TIME_ON"]? = e["TIME_ON"]?) : stopsAt d = stopsAt e := by
  rw [stopsAt, stopsAt, hasHhmm, hasHhmm, Doc.fieldMatches, Doc.fieldMatches, h]

theorem hasHhmm_congr (h : d["TIME_ON"]? = e["TIME_ON"]?) : hasHhmm d = hasHhmm e := by
  rw [hasHhmm, hasHhmm, Doc.fieldMatches, Doc.fieldMatches, h]

theorem isHhmm_append {s : String} (h : isHhmm s = true) : isHhmm (s ++ "00") = false := by
  have hlength : 4 ≤ s.toList.length := by
    rw [isHhmm, Bool.and_eq_true, beq_iff_eq] at h
    have hle := h.1
    split at hle
    · rw [List.length_dropLast] at hle
      omega
    · omega
  have hlast : (s ++ "00").toList.getLast? ≠ some '\n' := by
    rw [String.toList_append, List.getLast?_append_of_ne_nil _ (by decide)]
    decide
  rw [isHhmm, if_neg hlast, Bool.and_eq_false_iff, beq_eq_false_iff_ne, String.toList_append,
    List.length_append]
  left
  have htwo : "00".toList.length = 2 := rfl
  omega

/-- A padded document is not padded again. -/
theorem hasHhmm_padded (h : stopsAt d = false) : hasHhmm (padded d) = false := by
  cases hhhmm : hasHhmm d with
  | false => rw [padded_of_not_hasHhmm hhhmm, hhhmm]
  | true =>
    obtain ⟨s, hs, hmatch⟩ := exists_str_of_hasHhmm hhhmm h
    rw [padded, hs, hasHhmm, Doc.fieldMatches]
    dsimp only
    rw [if_pos hmatch, Doc.getElem?_insert, if_pos rfl]
    exact isHhmm_append hmatch

theorem mem_padDocs : d ∈ padDocs docs ↔
    (∃ e ∈ docs.takeWhile (!stopsAt ·), padded e = d) ∨ d ∈ docs.dropWhile (!stopsAt ·) := by
  rw [padDocs, List.mem_append, List.mem_map]

theorem stopsAt_of_mem_takeWhile (hd : d ∈ docs.takeWhile (!stopsAt ·)) : stopsAt d = false := by
  simpa using List.all_eq_true.1 (List.all_takeWhile (p := (!stopsAt ·)) (l := docs)) d hd

theorem padDocs_of_forall (h : ∀ d ∈ docs, stopsAt d = false) : padDocs docs = docs.map padded := by
  induction docs with
  | nil => rfl
  | cons d docs ih =>
    have hd : (!stopsAt d) = true := by rw [h d (List.mem_cons_self ..), Bool.not_false]
    rw [padDocs, List.takeWhile_cons_of_pos (p := (!stopsAt ·)) hd,
      List.dropWhile_cons_of_pos (p := (!stopsAt ·)) hd, List.map_cons, List.map_cons,
      List.cons_append, ← ih fun e he ↦ h e (List.mem_cons_of_mem _ he), padDocs]

/-- The pass over `TIME_ON` leaves a document that stopped it as it is. -/
theorem any_stopsAt_padDocs : (padDocs docs).any stopsAt = docs.any stopsAt := by
  rw [padDocs, List.any_append, List.any_map]
  have htake : (docs.takeWhile (!stopsAt ·)).any (stopsAt ∘ padded) = false := by
    rw [List.any_eq_false]
    intro d hd
    rw [Function.comp, stopsAt, hasHhmm_padded (stopsAt_of_mem_takeWhile hd), Bool.false_and]
    exact Bool.false_ne_true
  have htake' : (docs.takeWhile (!stopsAt ·)).any stopsAt = false := by
    rw [List.any_eq_false]
    intro d hd
    rw [stopsAt_of_mem_takeWhile hd]
    decide
  conv_rhs => rw [← List.takeWhile_append_dropWhile (p := (!stopsAt ·)) (l := docs)]
  rw [List.any_append, htake, htake']

theorem stopsAt_stampCreatedAt : stopsAt (stampCreatedAt now d) = stopsAt d :=
  stopsAt_congr (getElem?_stampCreatedAt (by decide))

theorem any_stopsAt_map : (docs.map (stampCreatedAt now)).any stopsAt = docs.any stopsAt := by
  rw [List.any_map]
  exact congrArg docs.any (funext fun _ ↦ stopsAt_stampCreatedAt)

theorem takeWhile_map_stampCreatedAt : (docs.map (stampCreatedAt now)).takeWhile (!stopsAt ·) =
    (docs.takeWhile (!stopsAt ·)).map (stampCreatedAt now) := by
  rw [List.takeWhile_map]
  have hcomp : (fun d ↦ !stopsAt d) ∘ stampCreatedAt now = fun d ↦ !stopsAt d :=
    funext fun _ ↦ congrArg _ stopsAt_stampCreatedAt
  rw [hcomp]

theorem dropWhile_map_stampCreatedAt : (docs.map (stampCreatedAt now)).dropWhile (!stopsAt ·) =
    (docs.dropWhile (!stopsAt ·)).map (stampCreatedAt now) := by
  rw [List.dropWhile_map]
  have hcomp : (fun d ↦ !stopsAt d) ∘ stampCreatedAt now = fun d ↦ !stopsAt d :=
    funext fun _ ↦ congrArg _ stopsAt_stampCreatedAt
  rw [hcomp]

/-- The first two migrations: every document is still there, with its `_created_at`, and with its
`TIME_ON` padded if it is one the pass comes to. -/
theorem mem_padDocs_map : d ∈ padDocs (docs.map (stampCreatedAt now)) ↔
    (∃ e ∈ docs.takeWhile (!stopsAt ·), padded (stampCreatedAt now e) = d) ∨
      ∃ e ∈ docs.dropWhile (!stopsAt ·), stampCreatedAt now e = d := by
  rw [mem_padDocs, takeWhile_map_stampCreatedAt, dropWhile_map_stampCreatedAt, List.mem_map]
  simp only [List.mem_map, exists_exists_and_eq_and]

theorem textHashes_padDocs (h : TextHashes docs) :
    TextHashes (padDocs (docs.map (stampCreatedAt now))) := by
  intro d hd v hv
  obtain ⟨e, he, rfl⟩ | ⟨e, he, rfl⟩ := mem_padDocs_map.1 hd
  · rw [getElem?_padded (by decide), getElem?_stampCreatedAt (by decide)] at hv
    exact h e ((List.takeWhile_sublist _).subset he) v hv
  · rw [getElem?_stampCreatedAt (by decide)] at hv
    exact h e ((List.dropWhile_sublist _).subset he) v hv

/-- **What the migrations do to the shared collection.** -/
theorem wp_backfills [UnicodeData] (h : TextHashes c.docs) :
    wp (backfills now)
      (fun _ c' ↦ c'.docs = backfilled now c.docs ∧ c'.rowHashUnique = true ∧
        c'.fullName = c.fullName ∧ BackfillsFit now c.docs)
      (fun _ c' ↦ c'.docs = backfilled now c.docs ∧ ¬ BackfillsFit now c.docs) c := by
  have hany : (padDocs (c.docs.map (stampCreatedAt now))).any stopsAt = c.docs.any stopsAt := by
    rw [any_stopsAt_padDocs, any_stopsAt_map]
  rw [backfills, wp_bind]
  refine wp_mono wp_backfillCreatedAt (fun _ c₁ h₁ ↦ ?_) fun _ _ h ↦ h.elim
  rw [wp_bind]
  refine wp_mono wp_normalizeTimeOn (fun _ c₂ h₂ ↦ ?_) fun _ c₂ h₂ ↦ ?_
  · obtain ⟨hdocs, -, hname, hgo⟩ := h₂
    rw [h₁.docs] at hdocs hgo
    have hgo' : ∀ d ∈ c.docs, stopsAt d = false := fun d hd ↦
      stopsAt_stampCreatedAt.symm.trans (hgo _ (List.mem_map_of_mem hd))
    have hbackfilled : c₂.docs.map (stampRowHash c₂.docs) = backfilled now c.docs := by
      rw [backfilled, if_neg, ← hdocs]
      rw [hany, List.any_eq_true]
      rintro ⟨d, hd, hstop⟩
      exact Bool.false_ne_true ((hgo' d hd).symm.trans hstop)
    rw [wp_bind]
    have hscalar : ScalarHashes c₂.docs := (hdocs ▸ textHashes_padDocs h).scalarHashes
    refine wp_mono (wp_backfillQsoRowHash hscalar) (fun _ c₃ h₃ ↦ ?_) fun _ c₃ h₃ ↦ ?_
    · obtain ⟨hpass, hindexable⟩ := h₃
      exact ⟨hpass.docs.trans hbackfilled, hpass.rowHashUnique,
        hpass.fullName.trans (hname.trans h₁.fullName), hgo', hbackfilled ▸ hindexable⟩
    · rw [hbackfilled] at h₃
      exact ⟨h₃.1, fun hfit ↦ h₃.2 hfit.2⟩
  · obtain ⟨hdocs, d, hd, hstop⟩ := h₂
    rw [h₁.docs] at hdocs hd
    obtain ⟨e, he, rfl⟩ := List.mem_map.1 hd
    rw [stopsAt_stampCreatedAt] at hstop
    refine ⟨?_, fun hfit ↦ Bool.false_ne_true ((hfit.1 e he).symm.trans hstop)⟩
    rw [backfilled, if_pos, hdocs]
    rw [hany, List.any_eq_true]
    exact ⟨e, he, hstop⟩

/-! ## Doing it again -/

theorem isSome_createdAt_stampCreatedAt : (stampCreatedAt now d)["_created_at"]?.isNone = false := by
  rw [stampCreatedAt]
  split
  · rw [Doc.getElem?_update, createdAtUpdate, Doc.getElem?_toStored, Doc.getElem?_insert,
      if_pos rfl]
    rfl
  · rename_i h
    simpa using h

theorem stampCreatedAt_of_isSome (h : d["_created_at"]?.isNone = false) :
    stampCreatedAt now d = d := by
  rw [stampCreatedAt, if_neg (by rw [h]; decide)]

/-- Documents of which none is left to be padded before the pass stops. -/
theorem padDocs_eq_self
    (h : ∀ d ∈ docs.takeWhile (!stopsAt ·), hasHhmm d = false) : padDocs docs = docs := by
  have hmap : (docs.takeWhile (!stopsAt ·)).map padded = docs.takeWhile (!stopsAt ·) :=
    (List.map_congr_left fun d hd ↦ padded_of_not_hasHhmm (h d hd)).trans (List.map_id' _)
  rw [padDocs, hmap, List.takeWhile_append_dropWhile]

theorem padDocs_again : padDocs (padDocs docs) = padDocs docs := by
  have htake : ∀ d ∈ (docs.takeWhile (!stopsAt ·)).map padded,
      hasHhmm d = false ∧ stopsAt d = false := by
    intro d hd
    obtain ⟨e, he, rfl⟩ := List.mem_map.1 hd
    have hhhmm := hasHhmm_padded (stopsAt_of_mem_takeWhile he)
    exact ⟨hhhmm, by rw [stopsAt, hhhmm, Bool.false_and]⟩
  refine padDocs_eq_self fun d hd ↦ ?_
  rw [padDocs, List.takeWhile_append_of_pos fun d hd ↦ by rw [(htake d hd).2, Bool.not_false],
    List.mem_append] at hd
  obtain hd | hd := hd
  · exact (htake d hd).1
  · cases hrest : docs.dropWhile (!stopsAt ·) with
    | nil =>
      rw [hrest] at hd
      cases hd
    | cons e rest =>
      have hhead := List.head?_dropWhile_not (!stopsAt ·) docs
      rw [hrest] at hhead hd
      rw [List.takeWhile_cons_of_neg (p := (!stopsAt ·)) (by simpa using hhead)] at hd
      cases hd

/-- A group that was reported is reported again. -/
theorem stampRowHash_again [UnicodeData] (hd : d ∈ docs.map (stampRowHash docs)) :
    stampRowHash (docs.map (stampRowHash docs)) d = d := by
  have hkept : ∀ e ∈ docs, ¬ Lone docs e → e ∈ docs.map (stampRowHash docs) := fun e he hnot ↦
    List.mem_map.2 ⟨e, he, if_neg hnot⟩
  obtain ⟨d, hmem, rfl⟩ := List.mem_map.1 hd
  refine if_neg fun hlone ↦ ?_
  by_cases hfirst : Lone docs d
  · have hnone := hlone.1
    rw [getElem?_stampRowHash_self, if_pos hfirst] at hnone
    cases hnone
  have hsame : stampRowHash docs d = d := if_neg hfirst
  rw [hsame] at hlone
  refine hfirst ⟨hlone.1, fun e he heq ↦ ?_, fun e he hnone hhash ↦ ?_⟩
  · refine hlone.2.1 e (hkept e he fun heLone ↦ ?_) heq
    cases heq.symm.trans heLone.1
  · by_cases heLone : Lone docs e
    · exact (heLone.2.2 d hmem hlone.1 hhash.symm).symm
    · exact hlone.2.2 e (hkept e he heLone) hnone hhash

theorem stopsAt_stampRowHash [UnicodeData] : stopsAt (stampRowHash docs d) = stopsAt d :=
  stopsAt_congr (getElem?_stampRowHash (by decide))

theorem any_stopsAt_backfilled [UnicodeData] :
    (backfilled now docs).any stopsAt = docs.any stopsAt := by
  have hpad : (padDocs (docs.map (stampCreatedAt now))).any stopsAt = docs.any stopsAt := by
    rw [any_stopsAt_padDocs, any_stopsAt_map]
  rw [backfilled]
  split
  · exact hpad
  · rw [List.any_map, ← hpad]
    exact congrArg _ (funext fun _ ↦ stopsAt_stampRowHash)

/-- **The migrations of the shared collection, again**: they find nothing to do. -/
theorem backfilled_again [UnicodeData] :
    backfilled now' (backfilled now docs) = backfilled now docs := by
  have hcreated : ∀ d ∈ padDocs (docs.map (stampCreatedAt now)),
      d["_created_at"]?.isNone = false := by
    intro d hd
    obtain ⟨e, -, rfl⟩ | ⟨e, -, rfl⟩ := mem_padDocs_map.1 hd
    · rw [getElem?_padded (by decide)]
      exact isSome_createdAt_stampCreatedAt
    · exact isSome_createdAt_stampCreatedAt
  have hpad : (padDocs (docs.map (stampCreatedAt now))).any stopsAt = docs.any stopsAt := by
    rw [any_stopsAt_padDocs, any_stopsAt_map]
  have hmapCreated : ∀ {ds : List Doc}, (∀ d ∈ ds, d["_created_at"]?.isNone = false) →
      ds.map (stampCreatedAt now') = ds := fun h ↦
    (List.map_congr_left fun d hd ↦ stampCreatedAt_of_isSome (h d hd)).trans (List.map_id' _)
  cases hstop : docs.any stopsAt with
  | true =>
    have hfirst : backfilled now docs = padDocs (docs.map (stampCreatedAt now)) :=
      if_pos (hpad.trans hstop)
    rw [hfirst, backfilled, hmapCreated hcreated, padDocs_again, if_pos (hpad.trans hstop)]
  | false =>
    have hgo : ∀ d ∈ docs.map (stampCreatedAt now), stopsAt d = false := by
      rw [← @any_stopsAt_map _ now, List.any_eq_false] at hstop
      exact fun d hd ↦ Bool.not_eq_true _ ▸ hstop d hd
    have hhhmm : ∀ d ∈ padDocs (docs.map (stampCreatedAt now)), hasHhmm d = false := by
      rw [padDocs_of_forall hgo]
      intro d hd
      obtain ⟨e, he, rfl⟩ := List.mem_map.1 hd
      exact hasHhmm_padded (hgo e he)
    set ds := padDocs (docs.map (stampCreatedAt now)) with hds
    have hfirst : backfilled now docs = ds.map (stampRowHash ds) :=
      if_neg (by rw [hpad, hstop]; decide)
    have hcreated' : (ds.map (stampRowHash ds)).map (stampCreatedAt now') =
        ds.map (stampRowHash ds) := hmapCreated fun d hd ↦ by
      obtain ⟨e, he, rfl⟩ := List.mem_map.1 hd
      rw [getElem?_stampRowHash (by decide), hcreated e he]
    have hpad' : padDocs (ds.map (stampRowHash ds)) = ds.map (stampRowHash ds) := by
      refine padDocs_eq_self fun d hd ↦ ?_
      obtain ⟨e, he, rfl⟩ := List.mem_map.1 ((List.takeWhile_sublist _).subset hd)
      rw [hasHhmm_congr (getElem?_stampRowHash (by decide)), hhhmm e he]
    have hany : (ds.map (stampRowHash ds)).any stopsAt = false := by
      rw [← hfirst, any_stopsAt_backfilled, hstop]
    rw [hfirst, backfilled, hcreated', hpad', if_neg (by rw [hany]; decide)]
    exact (List.map_congr_left fun d hd ↦ stampRowHash_again hd).trans (List.map_id' _)

/-- What fits once fits again. -/
theorem backfillsFit_again [UnicodeData] :
    BackfillsFit now' (backfilled now docs) ↔ BackfillsFit now docs := by
  have hall : ∀ docs : List Doc, (∀ d ∈ docs, stopsAt d = false) ↔ docs.any stopsAt = false := by
    intro docs
    rw [List.any_eq_false]
    simp only [Bool.not_eq_true]
  rw [BackfillsFit, BackfillsFit, backfilled_again, hall, hall, any_stopsAt_backfilled]

theorem textHashes_backfilled [UnicodeData] (h : TextHashes docs) :
    TextHashes (backfilled now docs) := by
  have hpad := @textHashes_padDocs _ now h
  rw [backfilled]
  split
  · exact hpad
  · intro d hd v hv
    obtain ⟨e, he, rfl⟩ := List.mem_map.1 hd
    rw [getElem?_stampRowHash_self] at hv
    split at hv
    · exact ⟨_, (Option.some.inj hv).symm⟩
    · exact hpad e he v hv

/-! ## Truthful hashes -/

/-- A document whose hash, if it has one, is the hash of its content. -/
def Truthful [UnicodeData] (d : Doc) : Prop :=
  ∀ v, d["rowHash"]? = some v → v = .str (canonicalDocumentHash d)

theorem canonicalDocumentHash_stampCreatedAt [UnicodeData] :
    canonicalDocumentHash (stampCreatedAt now d) = canonicalDocumentHash d := by
  refine canonicalDocumentHash_congr fun k hk ↦ ?_
  rw [getElem?_stampCreatedAt]
  rintro rfl
  exact hk (by decide)

theorem canonicalDocumentHash_padded [UnicodeData] (h : ∀ k ∉ hashExcludedFields, d[k]? = e[k]?) :
    canonicalDocumentHash (padded d) = canonicalDocumentHash (padded e) := by
  refine canonicalDocumentHash_congr fun k hk ↦ ?_
  rw [padded, padded, h "TIME_ON" (by decide)]
  split
  · split
    · rw [Doc.getElem?_insert, Doc.getElem?_insert, h k hk]
    · rw [h k hk]
  · rw [h k hk]

theorem canonicalDocumentHash_padded_stampCreatedAt [UnicodeData] :
    canonicalDocumentHash (padded (stampCreatedAt now d)) = canonicalDocumentHash (padded d) :=
  canonicalDocumentHash_padded fun k hk ↦ getElem?_stampCreatedAt fun heq ↦ hk (heq ▸ by decide)

theorem truthful_stampRowHash [UnicodeData] (h : Truthful d) : Truthful (stampRowHash docs d) := by
  have hhash : canonicalDocumentHash (stampRowHash docs d) = canonicalDocumentHash d := by
    refine canonicalDocumentHash_congr fun k hk ↦ ?_
    rw [getElem?_stampRowHash]
    rintro rfl
    exact hk (by decide)
  intro v hv
  rw [hhash]
  rw [getElem?_stampRowHash_self] at hv
  split at hv
  · exact (Option.some.inj hv).symm
  · exact h v hv

/-- **When the shared collection stays truthful**: if padding the `TIME_ON` of a document that has
its hash already does not change that hash. -/
theorem truthful_backfilled_iff [UnicodeData] (h : ∀ d ∈ docs, Truthful d) :
    (∀ d ∈ backfilled now docs, Truthful d) ↔
      ∀ d ∈ docs.takeWhile (!stopsAt ·), "rowHash" ∈ d →
        canonicalDocumentHash (padded d) = canonicalDocumentHash d := by
  set ds := padDocs (docs.map (stampCreatedAt now)) with hds
  have hstamp : (∀ d ∈ backfilled now docs, Truthful d) ↔ ∀ d ∈ ds, Truthful d := by
    rw [backfilled, ← hds]
    split
    · rfl
    rw [List.forall_mem_map]
    refine ⟨fun htruthful d hd ↦ ?_, fun htruthful d hd ↦ truthful_stampRowHash (htruthful d hd)⟩
    by_cases hlone : Lone ds d
    · intro v hv
      cases hlone.1.symm.trans hv
    · have hd' := htruthful d hd
      rwa [stampRowHash, if_neg hlone] at hd'
  have hget : ∀ d, (padded (stampCreatedAt now d))["rowHash"]? = d["rowHash"]? := fun d ↦ by
    rw [getElem?_padded (by decide), getElem?_stampCreatedAt (by decide)]
  rw [hstamp]
  constructor
  · intro htruthful d hd hmem
    obtain ⟨v, hv⟩ := Option.ne_none_iff_exists'.1 (Doc.mem_iff_ne_none.1 hmem)
    have hold := h d ((List.takeWhile_sublist _).subset hd) v hv
    have hnew := htruthful _ (mem_padDocs_map.2 (.inl ⟨d, hd, rfl⟩)) v ((hget d).trans hv)
    rw [hold, Value.str.injEq, canonicalDocumentHash_padded_stampCreatedAt] at hnew
    exact hnew.symm
  · intro hcond d hd v hv
    obtain ⟨e, he, rfl⟩ | ⟨e, he, rfl⟩ := mem_padDocs_map.1 hd
    · rw [hget] at hv
      rw [canonicalDocumentHash_padded_stampCreatedAt,
        hcond e he (Doc.mem_iff_ne_none.2 (hv ▸ Option.some_ne_none v))]
      exact h e ((List.takeWhile_sublist _).subset he) v hv
    · rw [getElem?_stampCreatedAt (by decide)] at hv
      rw [canonicalDocumentHash_stampCreatedAt]
      exact h e ((List.dropWhile_sublist _).subset he) v hv

/-! ## One document -/

/-- A shared document once it is brought up to date: it has its `_created_at`, its `TIME_ON` is
padded, and it has its hash, unless another has the same. -/
def upToDate [UnicodeData] (now : DateTime) (docs : List Doc) (d : Doc) : Doc :=
  stampRowHash (padDocs (docs.map (stampCreatedAt now))) (padded (stampCreatedAt now d))

theorem getElem?_padded_stampCreatedAt {k : String} (htime : k ≠ "TIME_ON")
    (hcreated : k ≠ "_created_at") : (padded (stampCreatedAt now d))[k]? = d[k]? := by
  rw [getElem?_padded htime, getElem?_stampCreatedAt hcreated]

theorem getElem?_upToDate [UnicodeData] {k : String} (htime : k ≠ "TIME_ON")
    (hcreated : k ≠ "_created_at") (hhash : k ≠ "rowHash") : (upToDate now docs d)[k]? = d[k]? := by
  rw [upToDate, getElem?_stampRowHash hhash, getElem?_padded_stampCreatedAt htime hcreated]

theorem mem_padded {k : String} : k ∈ padded d ↔ k ∈ d := by
  by_cases hk : k = "TIME_ON"
  swap
  · rw [Doc.mem_iff_ne_none, getElem?_padded hk, ← Doc.mem_iff_ne_none]
  rw [padded]
  split
  · rename_i s hs
    have hmem : "TIME_ON" ∈ d := Doc.mem_iff_ne_none.2 (hs ▸ Option.some_ne_none _)
    split
    · rw [hk, Std.ExtTreeMap.mem_insert, or_iff_right_of_imp fun _ ↦ hmem]
    · rfl
  · rfl

/-- The names of a document that is brought up to date. -/
theorem mem_upToDate [UnicodeData] {k : String} (hcreated : k ≠ "_created_at")
    (hhash : k ≠ "rowHash") : k ∈ upToDate now docs d ↔ k ∈ d := by
  rw [Doc.mem_iff_ne_none, upToDate, getElem?_stampRowHash hhash, ← Doc.mem_iff_ne_none, mem_padded,
    Doc.mem_iff_ne_none, getElem?_stampCreatedAt hcreated, ← Doc.mem_iff_ne_none]

theorem canonicalDocumentHash_upToDate [UnicodeData] :
    canonicalDocumentHash (upToDate now docs d) = canonicalDocumentHash (padded d) := by
  rw [← @canonicalDocumentHash_padded_stampCreatedAt now d]
  refine canonicalDocumentHash_congr fun k hk ↦ ?_
  rw [upToDate, getElem?_stampRowHash]
  rintro rfl
  exact hk (by decide)

theorem padDocs_map_of_forall (h : ∀ d ∈ docs, stopsAt d = false) :
    padDocs (docs.map (stampCreatedAt now)) = docs.map fun d ↦ padded (stampCreatedAt now d) := by
  rw [padDocs_of_forall, List.map_map]
  · rfl
  · rw [List.forall_mem_map]
    exact fun d hd ↦ stopsAt_stampCreatedAt.trans (h d hd)

/-- Where the pass over `TIME_ON` comes to the end, every document is brought up to date. -/
theorem backfilled_of_forall [UnicodeData] (h : ∀ d ∈ docs, stopsAt d = false) :
    backfilled now docs = docs.map (upToDate now docs) := by
  have hany : ((docs.map (stampCreatedAt now)).any stopsAt) = false := by
    rw [any_stopsAt_map, List.any_eq_false]
    exact fun d hd ↦ by rw [h d hd]; exact Bool.false_ne_true
  rw [backfilled, any_stopsAt_padDocs, hany, if_neg Bool.false_ne_true]
  conv_lhs => rw [padDocs_map_of_forall h, List.map_map, ← padDocs_map_of_forall h]
  rfl

/-- Documents are brought up to date apart from each other. -/
theorem padded_stampCreatedAt_inj {d e : Doc} (hd : d ∈ c.docs) (he : e ∈ c.docs)
    (h : padded (stampCreatedAt now d) = padded (stampCreatedAt now e)) : d = e := by
  refine Collection.eq_of_id_eq hd he ?_
  have hid : (padded (stampCreatedAt now d))["_id"]? = (padded (stampCreatedAt now e))["_id"]? := by
    rw [h]
  rwa [getElem?_padded_stampCreatedAt (by decide) (by decide),
    getElem?_padded_stampCreatedAt (by decide) (by decide)] at hid

/-- **When the migrations of the shared collection go through**: if no `TIME_ON` stops them, and no
two documents come with the same hash. -/
theorem backfillsFit_iff [UnicodeData] : BackfillsFit now c.docs ↔
    (∀ d ∈ c.docs, stopsAt d = false) ∧ Indexable c.docs := by
  refine and_congr_right fun h ↦ ?_
  have hget : ∀ d : Doc, (padded (stampCreatedAt now d))["rowHash"]? = d["rowHash"]? := fun _ ↦
    getElem?_padded_stampCreatedAt (by decide) (by decide)
  rw [backfilled_of_forall h, Indexable, Indexable, List.pairwise_map]
  refine ⟨fun hpairs ↦ hpairs.imp fun {d e} hclash ↦ ?_,
    fun hpairs ↦ (hpairs.and (nodup_docs c)).imp_of_mem fun {d e} hd he hpair ↦ ?_⟩
  · rw [clash_rowHash_eq_false] at hclash ⊢
    intro hsome heq
    have hkept : ∀ a : Doc, a["rowHash"]? ≠ none →
        (upToDate now c.docs a)["rowHash"]? = a["rowHash"]? := fun a ha ↦ by
      rw [upToDate, getElem?_stampRowHash_self, if_neg, hget]
      exact fun hlone ↦ ha ((hget a).symm.trans hlone.1)
    rw [hkept d hsome, hkept e (heq ▸ hsome)] at hclash
    exact hclash hsome heq
  · have hmem : ∀ a ∈ c.docs, padded (stampCreatedAt now a) ∈
        padDocs (c.docs.map (stampCreatedAt now)) := fun a ha ↦ by
      rw [padDocs_map_of_forall h]
      exact List.mem_map_of_mem ha
    refine (clash_stampRowHash (fun heq ↦ hpair.2 (padded_stampCreatedAt_inj hd he heq)) (hmem d hd)
      (hmem e he) ?_).1
    rw [clash_rowHash_eq_false, hget, hget, ← clash_rowHash_eq_false]
    exact hpair.1

end

end Ollog

import Ollog.Bson.Database

/-!
# Batches of updates

An unordered batch tries every one of its updates, and raises at the end if one of them failed.  A
`Batch` is one in which none fails, because no two documents have the same `rowHash` at any time in
between; it does to every document what its update says, in whatever order (`bulkWrite_of_batch`).
-/

set_option autoImplicit false

namespace Ollog

open Effects

/-- `UpdateOne({"_id": id, ...}, {"$set": fields})`. -/
structure UpdateOne where
  id : Value
  /-- What the filter asks for, the `_id` apart. -/
  query : Doc → Bool := fun _ ↦ true
  fields : Doc

/-- One update of a batch, with whether it changes a document. -/
def UpdateOne.apply (op : UpdateOne) : Db Bool := do
  match ← findOne fun d ↦ d["_id"]? == some op.id && op.query d with
  | none => return false
  | some d =>
    updateOne op.id op.fields
    return (← findOne fun e ↦ e["_id"]? == some op.id) != some d

/-- `bulk_write(ops, ordered=False)`, with `modified_count`. -/
def bulkWrite (ops : List UpdateOne) : Db Nat := do
  let results ← ops.mapM fun op ↦ (attempt op.apply : Db (Except PyErr Bool))
  if results.all (·.isOk) then return (results.filterMap (·.toOption)).count true
  else throw (.bulkWriteError "batch op errors occurred")

/-- What a batch makes of a document. -/
def stampBy (ops : List UpdateOne) (d : Doc) : Doc :=
  match ops.find? fun op ↦ d["_id"]? == some op.id with
  | some op => d ∪ Doc.toStored op.fields
  | none => d

/-- A batch of updates of plain fields, each of a document that is there and that it applies to, and
none of which comes upon a `rowHash` that another document has. -/
structure Batch (c : Collection) (ops : List UpdateOne) : Prop where
  found : ∀ op ∈ ops, ∃ d ∈ c.docs, d["_id"]? = some op.id ∧ op.query d = true
  encodable : ∀ op ∈ ops, op.fields.encodable = true
  plain : ∀ op ∈ ops, ∀ k ∈ op.fields, PlainKey k
  id : ∀ op ∈ ops, "_id" ∉ op.fields
  distinct : ops.Pairwise fun op op' ↦ op.id ≠ op'.id
  compatible : c.rowHashUnique = true → ∀ d ∈ c.docs, ∀ e ∈ c.docs, d ≠ e →
    Doc.clash "rowHash" (stampBy ops d) (stampBy ops e) = false ∧
      Doc.clash "rowHash" (stampBy ops d) e = false

section

variable {c c' : Collection} {op : UpdateOne} {ops : List UpdateOne} {d e : Doc}

theorem stampBy_cons_self (hid : d["_id"]? = some op.id) :
    stampBy (op :: ops) d = d ∪ Doc.toStored op.fields := by
  rw [stampBy, List.find?_cons_of_pos (by simpa using hid)]

theorem stampBy_cons_of_ne (hid : d["_id"]? ≠ some op.id) :
    stampBy (op :: ops) d = stampBy ops d := by
  rw [stampBy, stampBy, List.find?_cons_of_neg (by simpa using hid)]

theorem stampBy_of_forall_ne (h : ∀ op ∈ ops, d["_id"]? ≠ some op.id) : stampBy ops d = d := by
  have hnone : ops.find? (fun op ↦ d["_id"]? == some op.id) = none := by
    rw [List.find?_eq_none]
    intro op hop
    simpa using h op hop
  rw [stampBy, hnone]

/-- A field the batch does not set is left alone. -/
theorem getElem?_stampBy {k : String} (h : ∀ op ∈ ops, k ∉ op.fields) (d : Doc) :
    (stampBy ops d)[k]? = d[k]? := by
  rw [stampBy]
  split
  · rename_i op hfind
    rw [Doc.getElem?_update, Std.ExtTreeMap.getElem?_eq_none, Option.none_or]
    exact mt Doc.mem_toStored.1 (h op (List.mem_of_find?_eq_some hfind))
  · rfl

/-- Once a document has been updated, the rest of the batch passes it over. -/
theorem stampBy_updated (hne : ∀ op' ∈ ops, op.id ≠ op'.id) (hid : "_id" ∉ op.fields) (d : Doc) :
    stampBy ops (if d["_id"]? = some op.id then d ∪ Doc.toStored op.fields else d) =
      stampBy (op :: ops) d := by
  split
  · rename_i h
    rw [stampBy_cons_self h, stampBy_of_forall_ne]
    intro op' hop'
    rw [Doc.getElem?_update, Std.ExtTreeMap.getElem?_eq_none (mt Doc.mem_toStored.1 hid),
      Option.none_or, h]
    exact fun heq ↦ hne op' hop' (Option.some.inj heq)
  · rename_i h
    rw [stampBy_cons_of_ne h]

/-- The first update of a batch goes through, and leaves a batch. -/
theorem Batch.cons (h : Batch c (op :: ops)) : ∃ c', c.update op.id op.fields = .ok c' ∧
    c'.rowHashUnique = c.rowHashUnique ∧ c'.fullName = c.fullName ∧ Batch c' ops ∧
    c'.docs.map (stampBy ops) = c.docs.map (stampBy (op :: ops)) := by
  obtain ⟨d, hd, hid, hquery⟩ := h.found op (List.mem_cons_self ..)
  have hnoid := h.id op (List.mem_cons_self ..)
  have hne := (List.pairwise_cons.1 h.distinct).1
  obtain ⟨hiff, hdocs⟩ := Collection.update_of_plain (h.encodable op (List.mem_cons_self ..))
    (h.plain op (List.mem_cons_self ..)) hnoid hd hid
  obtain ⟨c', hc'⟩ := hiff.2 fun hunique e he hne ↦
    @stampBy_cons_self _ ops _ hid ▸ (h.compatible hunique d hd e he (Ne.symm hne)).2
  have hmap : c'.docs = c.docs.map fun e ↦
      if e["_id"]? = some op.id then e ∪ Doc.toStored op.fields else e := by
    rw [hdocs c' hc', Collection.replaceById]
    refine List.map_congr_left fun e he ↦ ?_
    split
    · rename_i heid
      rw [Collection.eq_of_id_eq he hd (heid.trans hid.symm)]
    · rfl
  have hsame : c'.rowHashUnique = c.rowHashUnique ∧ c'.fullName = c.fullName := by
    obtain rfl | ⟨_, _, -, -, -, -, -, hsame⟩ := Collection.update_eq_ok hc'
    · exact ⟨rfl, rfl⟩
    · exact hsame
  refine ⟨c', hc', hsame.1, hsame.2, ?_, ?_⟩
  · refine ⟨fun op' hop' ↦ ?_, fun op' hop' ↦ h.encodable op' (List.mem_cons_of_mem _ hop'),
      fun op' hop' ↦ h.plain op' (List.mem_cons_of_mem _ hop'),
      fun op' hop' ↦ h.id op' (List.mem_cons_of_mem _ hop'), (List.pairwise_cons.1 h.distinct).2,
      fun hu ↦ ?_⟩
    · obtain ⟨e, he, heid, hquery⟩ := h.found op' (List.mem_cons_of_mem _ hop')
      refine ⟨e, hmap ▸ List.mem_map.2 ⟨e, he, if_neg fun heq ↦ ?_⟩, heid, hquery⟩
      exact hne op' hop' (Option.some.inj (heq.symm.trans heid))
    · rw [hmap]
      simp only [List.forall_mem_map, stampBy_updated hne hnoid]
      intro d₁ hd₁ d₂ hd₂ hneq
      obtain ⟨hboth, hone⟩ := h.compatible (hsame.1 ▸ hu) d₁ hd₁ d₂ hd₂
        fun heq ↦ hneq (by rw [heq])
      refine ⟨hboth, ?_⟩
      split
      · rename_i hid₂
        rwa [stampBy_cons_self hid₂] at hboth
      · exact hone
  · rw [hmap, List.map_map]
    exact List.map_congr_left fun e _ ↦ stampBy_updated hne hnoid e

/-- What a batch leaves of a collection. -/
structure Stamped (c : Collection) (stamp : Doc → Doc) (c' : Collection) : Prop where
  docs : c'.docs = c.docs.map stamp
  rowHashUnique : c'.rowHashUnique = c.rowHashUnique
  fullName : c'.fullName = c.fullName

/-- The updates of a batch, one after another. -/
theorem wp_updateAll_of_batch (h : Batch c ops) :
    wp (forM ops fun op ↦ updateOne op.id op.fields) (fun _ ↦ Stamped c (stampBy ops))
      (fun _ _ ↦ False) c := by
  induction ops generalizing c with
  | nil =>
    rw [List.forM_nil, wp_pure]
    exact ⟨c.docs.map_id'.symm, rfl, rfl⟩
  | cons op ops ih =>
    obtain ⟨c₁, hupdate, hunique, hname, hbatch, hdocs⟩ := h.cons
    rw [List.forM_cons, wp_bind, wp_updateOne]
    refine ⟨fun c' hc' ↦ ?_, fun exc hexc ↦ nomatch hupdate.symm.trans hexc⟩
    obtain rfl := Except.ok.inj (hupdate.symm.trans hc')
    refine wp_mono (ih hbatch) (fun _ c' h' ↦ ?_) fun _ _ h ↦ h
    exact ⟨h'.docs.trans hdocs, h'.rowHashUnique.trans hunique, h'.fullName.trans hname⟩

/-- An update of a batch goes through. -/
theorem UpdateOne.apply_of_found (hfound : ∃ d ∈ c.docs, d["_id"]? = some op.id ∧ op.query d = true)
    (h : c.update op.id op.fields = .ok c') : ∃ modified, op.apply c = .ok modified c' := by
  have hsome : ∃ d, c.docs.find? (fun d ↦ d["_id"]? == some op.id && op.query d) = some d := by
    rw [← Option.isSome_iff_exists, List.find?_isSome]
    obtain ⟨d, hd, hid, hquery⟩ := hfound
    exact ⟨d, hd, by rw [hid, hquery, beq_self_eq_true, Bool.and_true]⟩
  obtain ⟨d, hd⟩ := hsome
  have hrun : ∃ modified c'', op.apply c = .ok modified c'' ∧ c'' = c' := by
    rw [exists_ok_iff_wp, UpdateOne.apply]
    simp only [wp_bind, wp_findOne, hd, wp_updateOne, wp_pure, h, Except.ok.injEq, reduceCtorEq,
      false_imp_iff, implies_true, and_true]
    exact fun _ heq ↦ heq.symm
  obtain ⟨modified, _, hrun, rfl⟩ := hrun
  exact ⟨modified, hrun⟩

/-- **A batch does what its updates say.** -/
theorem wp_bulkWrite_of_batch (h : Batch c ops) :
    wp (bulkWrite ops) (fun _ ↦ Stamped c (stampBy ops)) (fun _ _ ↦ False) c := by
  have hall : ∀ {c : Collection} {ops : List UpdateOne}, Batch c ops →
      wp (ops.mapM fun op ↦ (attempt op.apply : Db (Except PyErr Bool)))
        (fun results c' ↦ results.all (·.isOk) = true ∧ Stamped c (stampBy ops) c')
        (fun _ _ ↦ False) c := by
    intro c ops
    induction ops generalizing c with
    | nil =>
      intro _
      rw [List.mapM_nil, wp_pure]
      exact ⟨rfl, c.docs.map_id'.symm, rfl, rfl⟩
    | cons op ops ih =>
      intro h
      obtain ⟨c₁, hupdate, hunique, hname, hbatch, hdocs⟩ := h.cons
      obtain ⟨modified, hop⟩ := op.apply_of_found (h.found op (List.mem_cons_self ..)) hupdate
      have hattempt : wp (attempt op.apply : Db (Except PyErr Bool))
          (fun result c' ↦ result.isOk = true ∧ c' = c₁) (fun _ _ ↦ False) c := by
        rw [wp_attempt, wp, hop]
        exact ⟨rfl, rfl⟩
      rw [List.mapM_cons, wp_bind]
      refine wp_mono hattempt (fun result c' h ↦ ?_) fun _ _ h ↦ h
      obtain ⟨hok, rfl⟩ := h
      rw [wp_bind]
      refine wp_mono (ih hbatch) (fun results c' h ↦ ?_) fun _ _ h ↦ h
      obtain ⟨hoks, h'⟩ := h
      rw [wp_pure, List.all_cons, hok, hoks]
      exact ⟨rfl, h'.docs.trans hdocs, h'.rowHashUnique.trans hunique, h'.fullName.trans hname⟩
  rw [bulkWrite, wp_bind]
  refine wp_mono (hall h) (fun results c' h ↦ ?_) fun _ _ h ↦ h
  obtain ⟨hok, h'⟩ := h
  rw [wp_ite]
  exact ⟨fun _ ↦ h', fun hno ↦ absurd hok hno⟩

/-! ## Batches over documents -/

/-- A batch does to a document what the update says that has its `_id`. -/
theorem stampBy_of_mem (hdistinct : ops.Pairwise fun op op' ↦ op.id ≠ op'.id) (hop : op ∈ ops)
    (hid : d["_id"]? = some op.id) : stampBy ops d = d ∪ Doc.toStored op.fields := by
  induction ops with
  | nil => exact absurd hop List.not_mem_nil
  | cons op' ops ih =>
    obtain ⟨hne, hdistinct⟩ := List.pairwise_cons.1 hdistinct
    obtain rfl | hop := List.mem_cons.1 hop
    · exact stampBy_cons_self hid
    · rw [stampBy_cons_of_ne fun heq ↦ hne op hop (Option.some.inj (heq.symm.trans hid))]
      exact ih hdistinct hop

/-- Documents keep their distance if a batch does not touch their hashes. -/
theorem compatible_of_notMem (h : ∀ op ∈ ops, "rowHash" ∉ op.fields)
    (hunique : c.rowHashUnique = true) (hd : d ∈ c.docs) (he : e ∈ c.docs) (hne : d ≠ e) :
    Doc.clash "rowHash" (stampBy ops d) (stampBy ops e) = false ∧
      Doc.clash "rowHash" (stampBy ops d) e = false := by
  have hclash := (c.hashes_distinct hunique).forall hd he hne
  rw [Doc.clash] at hclash
  rw [Doc.clash, Doc.clash, getElem?_stampBy h, getElem?_stampBy h]
  exact ⟨hclash, hclash⟩

variable {todo : List Doc} {f : Doc → UpdateOne}

theorem ids_distinct_map (hf : ∀ d ∈ c.docs, d["_id"]? = some (f d).id)
    (hsub : todo.Sublist c.docs) : (todo.map f).Pairwise fun op op' ↦ op.id ≠ op'.id := by
  rw [List.pairwise_map]
  refine (c.ids_distinct.sublist hsub).imp_of_mem fun {d e} hd he hclash heq ↦ ?_
  rw [Doc.clash, hf d (hsub.subset hd), hf e (hsub.subset he), heq] at hclash
  simp at hclash

/-- What a batch over some documents does to each. -/
theorem stampBy_map (hf : ∀ d ∈ c.docs, d["_id"]? = some (f d).id) (hsub : todo.Sublist c.docs)
    (hd : d ∈ c.docs) :
    (d ∈ todo → stampBy (todo.map f) d = d ∪ Doc.toStored (f d).fields) ∧
      (d ∉ todo → stampBy (todo.map f) d = d) := by
  refine ⟨fun hmem ↦ ?_, fun hmem ↦ stampBy_of_forall_ne fun op hop hid ↦ ?_⟩
  · exact stampBy_of_mem (ids_distinct_map hf hsub) (List.mem_map_of_mem hmem) (hf d hd)
  · obtain ⟨e, he, rfl⟩ := List.mem_map.1 hop
    rw [← hf e (hsub.subset he)] at hid
    exact hmem (Collection.eq_of_id_eq hd (hsub.subset he) hid ▸ he)

/-- What a batch over the documents of a query does to a collection. -/
theorem Stamped.of_filter {query : Doc → Bool} {c' : Collection}
    (hf : ∀ d ∈ c.docs, d["_id"]? = some (f d).id)
    (h : Stamped c (stampBy ((c.docs.filter query).map f)) c') :
    Stamped c (fun d ↦ if query d then d ∪ Doc.toStored (f d).fields else d) c' := by
  refine ⟨h.docs.trans (List.map_congr_left fun d hd ↦ ?_), h.rowHashUnique, h.fullName⟩
  obtain ⟨hin, hout⟩ := stampBy_map hf List.filter_sublist hd
  rw [List.mem_filter] at hin hout
  split
  · rename_i hquery
    exact hin ⟨hd, hquery⟩
  · rename_i hquery
    exact hout fun h ↦ hquery h.2

/-- A batch over some documents, which sets one plain field of each. -/
theorem Batch.map {k : String} {v : Doc → Value} (hf : ∀ d ∈ c.docs, d["_id"]? = some (f d).id)
    (hfields : ∀ d ∈ todo, (f d).fields = (∅ : Doc).insert k (v d)) (hplain : PlainKey k)
    (hzero : noZero k) (hv : ∀ d ∈ todo, (v d).encodable = true) (hid : k ≠ "_id")
    (hsub : todo.Sublist c.docs) (hquery : ∀ d ∈ todo, (f d).query d = true)
    (hcompatible : c.rowHashUnique = true → ∀ d ∈ c.docs, ∀ e ∈ c.docs, d ≠ e →
      Doc.clash "rowHash" (stampBy (todo.map f) d) (stampBy (todo.map f) e) = false ∧
        Doc.clash "rowHash" (stampBy (todo.map f) d) e = false) : Batch c (todo.map f) := by
  have hmem : ∀ d ∈ todo, ∀ k' ∈ (f d).fields, k' = k := by
    intro d hd k' hk'
    rw [hfields d hd, Std.ExtTreeMap.mem_insert, Std.compare_eq_iff_eq] at hk'
    exact hk'.elim Eq.symm fun h ↦ absurd h Std.ExtTreeMap.not_mem_empty
  refine ⟨?_, ?_, ?_, ?_, ids_distinct_map hf hsub, hcompatible⟩
  all_goals
    intro op hop
    obtain ⟨d, hd, rfl⟩ := List.mem_map.1 hop
  · exact ⟨d, hsub.subset hd, hf d (hsub.subset hd), hquery d hd⟩
  · rw [Doc.encodable_iff]
    intro k' v' hv'
    rw [hfields d hd, Doc.getElem?_insert] at hv'
    split at hv'
    · rename_i hk'
      cases hv'
      exact ⟨hk' ▸ hzero, hv d hd⟩
    · simp at hv'
  · exact fun k' hk' ↦ hmem d hd k' hk' ▸ hplain
  · exact fun hk' ↦ hid (hmem d hd "_id" hk').symm

end

end Ollog

import Ollog.Qso.Accounting

/-!
# Importing a file twice

An import only adds documents behind the ones that are there.  So what was a duplicate when a file
was imported still is one when the file is imported again, and what was accepted now is a duplicate
of itself: it is found by the search, or else refused by the unique index.

Each of the two can fail on its own.  The search does not find what an account without a callsign
has stored, and the index need not exist; `import_again_iff` says that a second import accepts
something only where both fail.
-/

set_option autoImplicit false

namespace Ollog

open Effects

section

variable [UnicodeData]

/-! ## One record, once more -/

/-- A record that is kept out is reported as a duplicate, and nothing else happens. -/
theorem judge_of_blocked {env : Env} {operator : String} {item : Record × Nat} {c : Collection}
    {qsoDict : Doc} {query : Doc → Bool} (hup : UpperNamed item.1) (hread : Readable c)
    (hfree : ∀ d ∈ c.docs, d["_id"]? ≠ some (.oid (env.fresh item.2)))
    (hvalid : validated operator item.1 = .ok qsoDict) (hsearch : Searches operator qsoDict query)
    (hblocked : (∃ d ∈ c.docs, query d = true) ∨
      c.refuses (newDoc env item.2 qsoDict) = true ∧
        (newDoc env item.2 qsoDict).encodable = true) :
    ∃ call existingId, judge env operator item c = .ok (.duplicate call existingId) c := by
  have hnotfound : ∀ query', Searches operator qsoDict query' →
      (∀ d ∈ c.docs, query' d = false) → ¬ ∃ d ∈ c.docs, query d = true := by
    rintro query' hsearch' hnone ⟨d, hd, hquery⟩
    rw [hsearch.unique hsearch', hnone d hd] at hquery
    cases hquery
  obtain ⟨outcome, c', hok, hjudged⟩ := exists_ok_iff_wp.2 (wp_judge (E := fun _ _ ↦ False) hup hfree
    (fun dict hdict hnone _ _ ↦ hnone ⟨query, Except.ok.inj (hvalid.symm.trans hdict) ▸ hsearch⟩)
    (fun d hd exc hexc ↦ by
      obtain ⟨qso, hqso⟩ := hread d hd env.now
      cases hexc.symm.trans hqso)
    (fun dict query' hdict hsearch' hnone henc ↦ by
      obtain rfl := Except.ok.inj (hvalid.symm.trans hdict)
      have hrefused := hblocked.resolve_left (hnotfound query' hsearch' hnone)
      cases henc.symm.trans hrefused.2))
  cases hjudged with
  | error hinvalid => cases hinvalid.symm.trans hvalid
  | found _ _ _ _ => exact ⟨_, _, hok⟩
  | refused _ _ _ _ => exact ⟨_, _, hok⟩
  | accepted hvalid' hsearch' hnone hinsert =>
    obtain rfl := Except.ok.inj (hvalid.symm.trans hvalid')
    have hrefused := hblocked.resolve_left (hnotfound _ hsearch' hnone)
    cases (Collection.refuses_of_insert hinsert).symm.trans hrefused.1

/-- The search finds the document of its own dictionary, if that has an operator. -/
theorem searches_newDoc {env : Env} {idx : Nat} {operator : String} {record : Record}
    {dt : DateTime} {query : Doc → Bool} (hoperator : operator ≠ "") (h : UpperNamed record)
    (hrequired : ∀ k ∈ requiredFields, k ∈ record) (hdt : dt.utc % 1000 = 0)
    (hsearch : Searches operator (importDict operator record dt) query) :
    query (Doc.toStored (newDoc env idx (importDict operator record dt))) = true := by
  obtain ⟨call, band, mode, dt', windowStart, windowEnd, hcall, hband, hmode, hdate, hstart, hend,
    rfl⟩ := hsearch
  simp only [getElem?_importDict, String.reduceEq, if_false, if_true, Option.some.injEq,
    Value.datetime.injEq] at hcall hband hmode hdate
  subst hdate
  -- A text is read back as it was stored.
  have htext : ∀ k ∈ ["CALL", "BAND", "MODE"], ∀ v, record[k]?.map Value.str = some v →
      (Doc.toStored (newDoc env idx (importDict operator record dt)))[k]? = some v := by
    intro k hk v hv
    obtain ⟨s, hs, rfl⟩ := Option.map_eq_some_iff.1 hv
    simp only [List.mem_cons, List.not_mem_nil, or_false] at hk
    rw [Doc.getElem?_toStored, getElem?_newDoc_importDict h hrequired]
    obtain rfl | rfl | rfl := hk <;>
      simp only [String.reduceEq, if_false, hs, Option.map_some, Value.toStored]
  have hactive : (Doc.toStored (newDoc env idx (importDict operator record dt)))["_deleted"]? =
      some (.bool false) := by
    simp only [Doc.getElem?_toStored, getElem?_newDoc_importDict h hrequired, String.reduceEq,
      if_true, if_false, Option.map_some, Value.toStored]
  have hinstant : (Doc.toStored (newDoc env idx (importDict operator record dt)))["qso_date_utc"]? =
      some (.datetime dt.toStored) := by
    simp only [Doc.getElem?_toStored, getElem?_newDoc_importDict h hrequired, String.reduceEq,
      if_true, if_false, Option.map_some, Value.toStored]
  have hown : (Doc.toStored (newDoc env idx (importDict operator record dt)))["_operator"]? =
      some (.str operator) := by
    simp only [Doc.getElem?_toStored, getElem?_newDoc_importDict h hrequired, String.reduceEq,
      if_true, if_false, hoperator, Option.map_some, Value.toStored]
  refine duplicateQuery_of_sameContact ⟨fieldIs_of_eq hactive, fieldIs_of_eq hactive, rfl, rfl, rfl,
    rfl, ?_⟩ hown (htext _ (by decide) _ hcall) (htext _ (by decide) _ hband)
    (htext _ (by decide) _ hmode) hinstant hdt hstart hend
  rw [hinstant]
  simp [withinTwoMinutes, twoMinutes]

/-- The dictionary of a record is the one of a whole number of seconds. -/
theorem utc_mod_of_validated {operator : String} {record : Record} {dt : DateTime}
    (h : validated operator record = .ok (importDict operator (upperBandMode record) dt)) :
    dt.utc % 1000 = 0 := by
  obtain ⟨-, _, _, dt', -, -, hdt', hdict⟩ := validated_eq_ok.1 h
  have hsame : (importDict operator (upperBandMode record) dt)["qso_date_utc"]? =
      (importDict operator (upperBandMode record) dt')["qso_date_utc"]? := by rw [hdict]
  simp only [getElem?_importDict, String.reduceEq, if_false, if_true, Option.some.injEq,
    Value.datetime.injEq] at hsame
  obtain ⟨_, _, hmod⟩ := parseAdifDatetime_eq_ok (hsame ▸ hdt')
  exact hmod

/-- What a record leaves behind keeps it out: what was a duplicate still is one, and what was
accepted is found, or else refused by the index. -/
theorem Judged.blocked {env env₂ : Env} {operator : String} {item : Record × Nat}
    {c c' c₂ : Collection} {outcome : Outcome} {qsoDict : Doc} {query : Doc → Bool}
    (h : Judged env operator item c outcome c') (hup : UpperNamed item.1) (hext : c'.Extends c₂)
    (hvalid : validated operator item.1 = .ok qsoDict) (hsearch : Searches operator qsoDict query)
    (hnamed : operator ≠ "" ∨ c₂.rowHashUnique = true ∨ ∃ d ∈ c.docs, query d = true) :
    (∃ d ∈ c₂.docs, query d = true) ∨ c₂.refuses (newDoc env₂ item.2 qsoDict) = true ∧
      (newDoc env₂ item.2 qsoDict).encodable = true := by
  obtain ⟨dt, rfl, hupper, hrequired⟩ := newDoc_of_validated hvalid hup
  have hmod := utc_mod_of_validated hvalid
  -- Whether the index refuses a document, and whether it can be encoded, is the same for both runs.
  have hsame : ∀ c : Collection,
      c.refuses (newDoc env item.2 (importDict operator (upperBandMode item.1) dt)) =
        c.refuses (newDoc env₂ item.2 (importDict operator (upperBandMode item.1) dt)) :=
    fun c ↦ Collection.refuses_congr (rowHash_newDoc_congr hupper hrequired)
  have hencode : (newDoc env item.2 (importDict operator (upperBandMode item.1) dt)).encodable =
        true →
      (newDoc env₂ item.2 (importDict operator (upperBandMode item.1) dt)).encodable = true :=
    fun henc ↦ (encodable_newDoc_iff hupper hrequired).2
      ((encodable_newDoc_iff hupper hrequired).1 henc)
  cases h with
  | error hinvalid => cases hinvalid.symm.trans hvalid
  | found hvalid' hsearch' hd hquery =>
    obtain rfl := Except.ok.inj (hvalid'.symm.trans hvalid)
    obtain rfl := hsearch'.unique hsearch
    exact .inl ⟨_, hext.mem hd, hquery⟩
  | refused hvalid' _ hrefuse henc =>
    obtain rfl := Except.ok.inj (hvalid'.symm.trans hvalid)
    exact .inr ⟨hsame _ ▸ hext.refuses hrefuse, hencode henc⟩
  | accepted hvalid' hsearch' hnone hinsert =>
    obtain rfl := Except.ok.inj (hvalid'.symm.trans hvalid)
    obtain rfl := hsearch'.unique hsearch
    have hnew : Doc.toStored (newDoc env item.2
        (importDict operator (upperBandMode item.1) dt)) ∈ c₂.docs := by
      refine hext.mem ?_
      rw [(Collection.insert_eq_ok hinsert).1]
      exact List.mem_append_right _ (List.mem_singleton_self _)
    obtain hoperator | hunique | ⟨d, hd, hquery⟩ := hnamed
    · exact .inl ⟨_, hnew, searches_newDoc hoperator hupper hrequired hmod hsearch⟩
    · refine .inr ⟨hsame _ ▸ Collection.refuses_of_mem hunique hnew ?_, hencode ?_⟩
      · rw [Doc.clash, Doc.getElem?_toStored, getElem?_newDoc_importDict hupper hrequired]
        simp only [String.reduceEq, if_false, if_true, Option.map_some, Option.isSome_some,
          beq_self_eq_true, Bool.and_self]
      · by_contra henc
        rw [Bool.not_eq_true] at henc
        cases hinsert.symm.trans (Collection.insert_of_not_encodable henc)
    · cases (hnone d hd).symm.trans hquery

/-! ## All records, once more -/

/-- The second time nothing is accepted, and the errors are the same. -/
structure Repeats (items : List (Record × Nat)) (outcomes outcomes₂ : List Outcome) : Prop where
  accepted : (items.zip outcomes₂).filterMap acceptedEntry = []
  errors : (items.zip outcomes₂).filterMap errorEntry = (items.zip outcomes).filterMap errorEntry

/-- The condition under which a record that was accepted is recognised later. -/
def Recognised (operator : String) (items : List (Record × Nat)) (c : Collection) : Prop :=
  operator ≠ "" ∨ c.rowHashUnique = true ∨ ∀ item ∈ items, ∀ qsoDict query,
    validated operator item.1 = .ok qsoDict → Searches operator qsoDict query →
      ∃ d ∈ c.docs, query d = true

/-- A record is judged as it was judged before, and nothing changes. -/
theorem Judged.again {env env₂ : Env} {operator : String} {item : Record × Nat}
    {c c' c₂ : Collection} {outcome : Outcome} (h : Judged env operator item c outcome c')
    (hup : UpperNamed item.1) (hext : c'.Extends c₂) (hread : Readable c₂)
    (hfree : ∀ d ∈ c₂.docs, d["_id"]? ≠ some (.oid (env₂.fresh item.2)))
    (hknown : Recognised operator [item] c) :
    ∃ outcome₂, judge env₂ operator item c₂ = .ok outcome₂ c₂ ∧
      Repeats [item] [outcome] [outcome₂] := by
  cases hvalid : validated operator item.1 with
  | error text =>
    refine ⟨.error (recordCall item.1) text, by rw [judge, hvalid]; rfl, rfl, ?_⟩
    cases h with
    | error hinvalid =>
      obtain rfl := Except.error.inj (hinvalid.symm.trans hvalid)
      rfl
    | found hvalid' _ _ _ | refused hvalid' _ _ _ | accepted hvalid' _ _ _ =>
      cases hvalid'.symm.trans hvalid
  | ok qsoDict =>
    -- The first run has searched for the record as well.
    have hsearched : ∃ query, Searches operator qsoDict query :=
      (JudgedAll.cons h .nil).exists_searches item (List.mem_singleton_self _) qsoDict hvalid
    obtain ⟨query, hsearch⟩ := hsearched
    have hnamed : operator ≠ "" ∨ c₂.rowHashUnique = true ∨ ∃ d ∈ c.docs, query d = true :=
      hknown.imp_right <| Or.imp (fun hunique ↦ (h.extends.trans hext).rowHashUnique.trans hunique)
        fun hall ↦ hall item (List.mem_singleton_self _) qsoDict query hvalid hsearch
    obtain ⟨call, existingId, hjudge⟩ : ∃ call existingId, judge env₂ operator item c₂ =
        .ok (.duplicate call existingId) c₂ :=
      judge_of_blocked hup hread hfree hvalid hsearch (h.blocked hup hext hvalid hsearch hnamed)
    refine ⟨_, hjudge, rfl, ?_⟩
    cases h with
    | error hinvalid => cases hinvalid.symm.trans hvalid
    | _ => rfl

/-- **Judging a list of records again**, in any readable collection that has what the first time
has left. -/
theorem JudgedAll.again {env env₂ : Env} {operator : String} {items : List (Record × Nat)}
    {c c' c₂ : Collection} {outcomes : List Outcome}
    (h : JudgedAll env operator items c outcomes c') (hup : ∀ item ∈ items, UpperNamed item.1)
    (hext : c'.Extends c₂) (hread : Readable c₂) (hunused : env₂.Unused (items.map Prod.snd) c₂)
    (hknown : Recognised operator items c) :
    ∃ outcomes₂, items.mapM (judge env₂ operator) c₂ = .ok outcomes₂ c₂ ∧
      Repeats items outcomes outcomes₂ := by
  induction h with
  | nil => exact ⟨[], rfl, rfl, rfl⟩
  | @cons item items outcome outcomes c c' c'' hjudged hrest ih =>
    have hknown₁ : Recognised operator [item] c := hknown.imp_right <| Or.imp_right fun hall i hi ↦
      hall i (List.mem_singleton.1 hi ▸ List.mem_cons_self ..)
    have hknown₂ : Recognised operator items c' := hknown.imp_right <| Or.imp
      (fun hunique ↦ hjudged.extends.rowHashUnique.trans hunique) fun hall i hi qsoDict query hv hs ↦
        have ⟨d, hd, hquery⟩ := hall i (List.mem_cons_of_mem _ hi) qsoDict query hv hs
        ⟨d, hjudged.extends.mem hd, hquery⟩
    obtain ⟨outcome₂, hjudge, haccepted, herrors⟩ := hjudged.again
      (hup item (List.mem_cons_self ..)) (hrest.extends.trans hext) hread
      (hunused item.2 (List.mem_cons_self ..)) hknown₁
    obtain ⟨outcomes₂, hmap, haccepted', herrors'⟩ := ih
      (fun i hi ↦ hup i (List.mem_cons_of_mem _ hi)) hext
      (fun i hi ↦ hunused i (List.mem_cons_of_mem _ hi)) hknown₂
    refine ⟨outcome₂ :: outcomes₂, ?_, ?_, ?_⟩
    · rw [List.mapM_cons, run_bind_eq_ok]
      exact ⟨_, _, hjudge, run_bind_eq_ok.2 ⟨_, _, hmap, rfl⟩⟩
    · rw [List.zip_cons_cons, ← List.singleton_append, List.filterMap_append, haccepted']
      exact (List.append_nil _).trans haccepted
    · rw [List.zip_cons_cons, List.zip_cons_cons, ← List.singleton_append, List.filterMap_append,
        herrors', ← List.singleton_append (l := items.zip outcomes), List.filterMap_append]
      exact congrArg (· ++ _) herrors

/-- Where nothing is accepted, every record has been judged in the same collection. -/
theorem JudgedAll.judged_of_none_accepted {env : Env} {operator : String}
    {items : List (Record × Nat)} {c c' : Collection} {outcomes : List Outcome}
    (h : JudgedAll env operator items c outcomes c')
    (hnone : (items.zip outcomes).filterMap acceptedEntry = []) :
    ∀ item ∈ items, ∃ outcome, Judged env operator item c outcome c := by
  induction h with
  | nil => exact fun _ h ↦ absurd h List.not_mem_nil
  | cons hjudged hrest ih =>
    have hsame : ∀ {item outcome c c'}, Judged env operator item c outcome c' →
        acceptedEntry (item, outcome) = none → c' = c := by
      intro item outcome c c' h hentry
      cases h with
      | accepted _ _ _ _ => cases hentry
      | _ => rfl
    rw [List.zip_cons_cons] at hnone
    have hentry := List.filterMap_eq_nil_iff.1 hnone _ (List.mem_cons_self ..)
    obtain rfl := hsame hjudged hentry
    intro i hi
    obtain rfl | hi := List.mem_cons.1 hi
    · exact ⟨_, hjudged⟩
    · refine ih (List.filterMap_eq_nil_iff.2 fun p hp ↦ ?_) i hi
      exact List.filterMap_eq_nil_iff.1 hnone p (List.mem_cons_of_mem _ hp)

/-- A document of a nameless account is not what its searches are for. -/
theorem Searches.not_newDoc {env : Env} {idx : Nat} {record : Record} {dt : DateTime}
    {qsoDict : Doc} {query : Doc → Bool} (h : Searches "" qsoDict query) (hup : UpperNamed record)
    (hrequired : ∀ k ∈ requiredFields, k ∈ record) :
    query (Doc.toStored (newDoc env idx (importDict "" record dt))) = false := by
  obtain ⟨_, _, _, _, _, _, -, -, -, -, -, -, rfl⟩ := h
  have hnull : (Doc.toStored (newDoc env idx (importDict "" record dt)))["_operator"]? =
      some .null := by
    simp only [Doc.getElem?_toStored, getElem?_newDoc_importDict hup hrequired, String.reduceEq,
      if_false, if_true, Option.map_some, Value.toStored]
  have hother : Doc.fieldIs (Doc.toStored (newDoc env idx (importDict "" record dt))) "_operator"
      (.str "") = false := by
    simp only [Doc.fieldIs, Doc.fieldMatches, hnull]
    decide
  simp only [duplicateQuery, hother, Bool.false_and]

/-- **A second import of a file accepts nothing**, finds the same errors and changes nothing,
exactly if the account has a callsign, or the unique index is there, or every record of the file was
a duplicate already before the first one. -/
theorem import_again_iff {env env₂ : Env} {raw : List UInt8} {operator : String}
    {c c₁ : Collection} {report₁ : ImportReport} (hread : Readable c)
    (hfresh : env.Fresh (parseAdi (decodeUtf8 raw)).1.length c)
    (himport : (importQsosFromBytes env raw operator : Db _) c = .ok report₁ c₁)
    (hfresh₂ : env₂.Fresh (parseAdi (decodeUtf8 raw)).1.length c₁) :
    (∃ report₂, (importQsosFromBytes env₂ raw operator : Db _) c₁ = .ok report₂ c₁ ∧
        report₂.accepted = [] ∧ report₂.errors = report₁.errors) ↔
      Recognised operator (importItems raw) c := by
  obtain ⟨outcomes, hjudged, rfl⟩ := judgedAll_of_import hread hfresh himport
  have hread₁ := hjudged.readable (fun _ ↦ upperNamed_of_mem_importItems) hread
  constructor
  · rintro ⟨report₂, himport₂, haccepted, -⟩
    obtain ⟨outcomes₂, hjudged₂, rfl⟩ := judgedAll_of_import hread₁ hfresh₂ himport₂
    rw [addAll_eq] at haccepted
    have hsame := hjudged₂.judged_of_none_accepted haccepted
    by_cases hoperator : operator = ""
    swap
    · exact .inl hoperator
    subst hoperator
    cases hunique : c.rowHashUnique with
    | true => exact .inr (.inl hunique)
    | false =>
      refine .inr (.inr fun item hitem qsoDict query hvalid hsearch ↦ ?_)
      obtain ⟨outcome, h⟩ := hsame item hitem
      cases h with
      | error hinvalid => cases hinvalid.symm.trans hvalid
      | refused _ _ hrefuse _ =>
        rw [Collection.refuses, hjudged.extends.rowHashUnique, hunique] at hrefuse
        cases hrefuse
      | accepted _ _ _ hinsert =>
        have hlength := congrArg List.length (Collection.insert_eq_ok hinsert).1
        rw [List.length_append, List.length_singleton] at hlength
        omega
      | @found _ _ d _ hvalid' hsearch' hd hquery =>
        obtain rfl := Except.ok.inj (hvalid'.symm.trans hvalid)
        obtain rfl := hsearch'.unique hsearch
        obtain hd | ⟨other, hother, dict, hdict, rfl⟩ := hjudged.mem_docs hd
        · exact ⟨d, hd, hquery⟩
        · obtain ⟨dt, rfl, hupper, hrequired⟩ :=
            newDoc_of_validated hdict (upperNamed_of_mem_importItems hother)
          cases (hsearch.not_newDoc hupper hrequired).symm.trans hquery
  · intro hknown
    obtain ⟨outcomes₂, hmap, haccepted, herrors⟩ := hjudged.again
      (fun _ ↦ upperNamed_of_mem_importItems) (.refl c₁) hread₁
      (by rw [map_snd_importItems]; exact hfresh₂.unused) hknown
    refine ⟨(initialReport raw).addAll (importItems raw) outcomes₂, ?_, ?_, ?_⟩
    · rw [importQsosFromBytes_eq (length_le_of_import himport), run_bind_eq_ok]
      exact ⟨outcomes₂, c₁, hmap, rfl⟩
    · rw [addAll_eq, haccepted]
      rfl
    · rw [addAll_eq, addAll_eq, herrors]

end

/-! ## A file that is imported twice -/

section

attribute [local instance] UnicodeData.ascii

/-- The log of a user whose index has not been created. -/
def Sample.unindexed : Collection := .empty "ollog.w1aw_qsos" false

theorem import_again_of_contact : ∃ report₁ c₁,
    (importQsosFromBytes Sample.env Sample.file "W1AW" : Db _) Sample.unindexed =
      .ok report₁ c₁ ∧
    ∃ report₂, (importQsosFromBytes Sample.later Sample.file "W1AW" : Db _) c₁ = .ok report₂ c₁ ∧
      report₂.accepted = [] ∧ report₂.errors = report₁.errors := by
  have hnodup : ∀ env ∈ [Sample.env, Sample.later], ((List.range
      (parseAdi (decodeUtf8 Sample.file)).1.length).map env.fresh).Nodup := by decide +kernel
  have hfree : (match (importQsosFromBytes Sample.env Sample.file "W1AW" : Db _)
      Sample.unindexed with
      | .ok _ c₁ => (List.range (parseAdi (decodeUtf8 Sample.file)).1.length).all fun i ↦
        c₁.docs.all fun d ↦ d["_id"]? != some (.oid (Sample.later.fresh i))
      | .error _ _ => false) = true := by decide +kernel
  have hread : Readable Sample.unindexed := fun d hd ↦ absurd hd List.not_mem_nil
  have hfresh : Sample.env.Fresh (parseAdi (decodeUtf8 Sample.file)).1.length Sample.unindexed :=
    ⟨hnodup _ (List.mem_cons_self ..), fun _ _ d hd ↦ absurd hd List.not_mem_nil⟩
  cases himport : (importQsosFromBytes Sample.env Sample.file "W1AW" : Db _) Sample.unindexed with
  | error exc c₁ =>
    rw [himport] at hfree
    cases hfree
  | ok report₁ c₁ =>
    rw [himport] at hfree
    refine ⟨report₁, c₁, rfl, (import_again_iff hread hfresh himport
      ⟨hnodup _ (List.mem_cons_of_mem _ (List.mem_singleton_self _)), fun i hi d hd ↦ ?_⟩).2
      (.inl (by decide))⟩
    simpa using List.all_eq_true.1 (List.all_eq_true.1 hfree i hi) d hd

/-- Without a callsign and without an index, what was imported is imported again. -/
theorem import_again_accepts_of_nameless : ∃ report₁ c₁,
    (importQsosFromBytes Sample.env Sample.file "" : Db _) Sample.unindexed = .ok report₁ c₁ ∧
    ¬ ∃ report₂, (importQsosFromBytes Sample.later Sample.file "" : Db _) c₁ = .ok report₂ c₁ ∧
      report₂.accepted = [] ∧ report₂.errors = report₁.errors := by
  have htwice : (match (importQsosFromBytes Sample.env Sample.file "" : Db _)
      Sample.unindexed with
      | .ok _ c₁ => match (importQsosFromBytes Sample.later Sample.file "" : Db _) c₁ with
        | .ok report₂ _ => !report₂.accepted.isEmpty
        | .error _ _ => false
      | .error _ _ => false) = true := by decide +kernel
  cases himport : (importQsosFromBytes Sample.env Sample.file "" : Db _) Sample.unindexed with
  | error exc c₁ =>
    rw [himport] at htwice
    cases htwice
  | ok report₁ c₁ =>
    refine ⟨report₁, c₁, rfl, ?_⟩
    rintro ⟨report₂, himport₂, haccepted, -⟩
    rw [himport] at htwice
    dsimp only at htwice
    rw [himport₂] at htwice
    dsimp only at htwice
    rw [haccepted] at htwice
    cases htwice

end

end Ollog

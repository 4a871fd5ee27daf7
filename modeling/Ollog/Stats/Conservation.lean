import Mathlib.Data.List.Perm.Basic
import Ollog.Stats.Service

/-!
# Statistics conserve contacts

Each aggregation of `get_stats` is a tally of the active QSOs, and the entities are a tally of the
groups of one of them, so that the counts add up to what is counted, through the grouping, the
resolution of calls, the sorting and the truncation: `getStats_conserves`.
-/

set_option autoImplicit false

namespace Ollog

open OrderedDict Tally

/-! ## Lists and their counts -/

/-- The counts of different values add up to the count of all of them. -/
theorem sum_countP_eq {ι κ : Type} [DecidableEq κ] (f : ι → κ) (items : List ι) {values : List κ}
    (hnodup : values.Nodup) :
    (values.map fun v ↦ items.countP fun i ↦ f i = v).sum = items.countP fun i ↦ f i ∈ values := by
  have hsplit : ∀ v (vs : List κ), v ∉ vs → (items.countP fun i ↦ f i = v) +
      (items.countP fun i ↦ f i ∈ vs) = items.countP fun i ↦ f i ∈ v :: vs := by
    intro v vs hv
    induction items with
    | nil => rfl
    | cons i items ih =>
      simp only [List.countP_cons, decide_eq_true_eq, List.mem_cons] at ih ⊢
      rw [← ih]
      by_cases hi : f i = v
      · rw [if_pos hi, if_neg (hi ▸ hv), if_pos (.inl hi)]
        omega
      · by_cases hmem : f i ∈ vs
        · rw [if_neg hi, if_pos hmem, if_pos (.inr hmem)]
          omega
        · rw [if_neg hi, if_neg hmem, if_neg (not_or.2 ⟨hi, hmem⟩)]
          omega
  induction values with
  | nil => simp
  | cons v values ih =>
    obtain ⟨hv, hvalues⟩ := List.nodup_cons.1 hnodup
    rw [List.map_cons, List.sum_cons, ih hvalues, hsplit v values hv]

/-- A rearrangement of images is the images of a rearrangement. -/
theorem exists_map_eq_of_perm {α β : Type} {f : α → β} {xs : List α} {ys : List β}
    (h : ys.Perm (xs.map f)) : ∃ xs' : List α, xs'.Perm xs ∧ xs'.map f = ys := by
  have hforall : List.Forall₂ (fun y x ↦ y = f x) (xs.map f) xs :=
    List.forall₂_map_left_iff.2 (List.forall₂_same.2 fun _ _ ↦ rfl)
  obtain ⟨xs', hmap, hperm⟩ := List.perm_comp_forall₂ h hforall
  refine ⟨xs', hperm, ?_⟩
  clear hperm h hforall
  induction hmap with
  | nil => rfl
  | cons heq _ ih => rw [List.map_cons, ih, heq]

/-! ## Groups -/

theorem distinct_of_perm {α β : Type} {d d' : List (α × β)} (h : d'.Perm d)
    (hd : OrderedDict.Distinct d) : OrderedDict.Distinct d' :=
  (h.pairwise_iff fun hne ↦ hne.symm).2 hd

theorem namedCounts_eq_ok {groups : List (Value × Nat)} (hd : OrderedDict.Distinct groups)
    (htext : ∀ group ∈ groups, group.1 = .null ∨ ∃ s, group.1 = .str s) :
    namedCounts groups = .ok (groups.filter fun group ↦ group.1.truthy) := by
  have hkeys : ∀ named : List (Value × Nat), (∀ group ∈ named, hashKey group.1 = .ok ()) →
      (named.forM fun group ↦ hashKey group.1) = .ok () := by
    intro named
    induction named with
    | nil => exact fun _ ↦ rfl
    | cons group named ih =>
      intro h
      rw [List.forM_eq_forM, List.forM_cons, h group (List.mem_cons_self ..)]
      exact ih fun group hgroup ↦ h group (List.mem_cons_of_mem _ hgroup)
  have hof : ofItems (groups.filter fun group ↦ group.1.truthy) =
      groups.filter fun group ↦ group.1.truthy := Distinct.ofItems_eq (hd.filter _)
  rw [namedCounts, hkeys, hof]
  · rfl
  · intro group hgroup
    rcases htext group (List.mem_filter.1 hgroup).1 with h | ⟨s, h⟩ <;> rw [h] <;> rfl

section Stats

variable [UnicodeData] [UnicodeDigits]

/-- What the key of a group of calls is resolved to. -/
def resolvedKey : Value → Option String
  | .str s => Callsign.lookupPrefix s
  | _ => none

/-- What a contact is resolved to. -/
def resolved (d : Doc) : Option String := resolvedKey (groupKey "CALL" d)

variable [Countries]

/-- The roll-up is a tally of the groups, and sees each code once. -/
theorem exists_rollUp {groups : List (Value × Nat)}
    (hcalls : ∀ group ∈ groups, ∃ s, group.1 = .str s) : ∃ seen,
    groups.foldlM rollUp ([], []) =
      .ok (tally (fun group ↦ entityName (resolvedKey group.1)) (·.2) groups, seen) ∧
    seen.Nodup ∧ ∀ iso, iso ∈ seen ↔ ∃ group ∈ groups, resolvedKey group.1 = some iso := by
  have hfold : ∀ (totals : OrderedDict String Nat) (seen : List String), seen.Nodup → ∃ seen',
      groups.foldlM rollUp (totals, seen) = .ok (groups.foldl (fun d group ↦
        add d (entityName (resolvedKey group.1)) group.2) totals, seen') ∧ seen'.Nodup ∧
      ∀ iso, iso ∈ seen' ↔ iso ∈ seen ∨ ∃ group ∈ groups, resolvedKey group.1 = some iso := by
    induction groups with
    | nil => exact fun totals seen hseen ↦ ⟨seen, rfl, hseen, by simp⟩
    | cons group groups ih =>
      intro totals seen hseen
      obtain ⟨s, hs⟩ := hcalls group (List.mem_cons_self ..)
      have hresolve : resolveKey group.1 = .ok (resolvedKey group.1) := by rw [hs]; rfl
      have htail := ih fun group hgroup ↦ hcalls group (List.mem_cons_of_mem _ hgroup)
      cases hiso : resolvedKey group.1 with
      | none =>
        have hround : rollUp (totals, seen) group = .ok (add totals (entityName none) group.2, seen) := by
          rw [rollUp, hresolve, hiso]
          rfl
        obtain ⟨seen', hrun, hnodup, hmem⟩ := htail (add totals (entityName none) group.2) seen hseen
        refine ⟨seen', ?_, hnodup, fun iso ↦ ?_⟩
        · rw [List.foldlM_cons, hround, List.foldl_cons, hiso]
          exact hrun
        · rw [hmem]
          simp [hiso]
      | some code =>
        have hround : rollUp (totals, seen) group = .ok (add totals (entityName (some code)) group.2,
            if code ∈ seen then seen else seen ++ [code]) := by
          rw [rollUp, hresolve, hiso]
          rfl
        have hseen' : (if code ∈ seen then seen else seen ++ [code]).Nodup := by
          split
          · exact hseen
          · rename_i hno
            refine List.nodup_append.2 ⟨hseen, List.nodup_singleton _, fun iso hiso code' hcode' ↦ ?_⟩
            rw [List.mem_singleton.1 hcode']
            exact fun heq ↦ hno (heq ▸ hiso)
        obtain ⟨seen', hrun, hnodup, hmem⟩ :=
          htail (add totals (entityName (some code)) group.2) _ hseen'
        refine ⟨seen', ?_, hnodup, fun iso ↦ ?_⟩
        · rw [List.foldlM_cons, hround, List.foldl_cons, hiso]
          exact hrun
        · rw [hmem]
          by_cases hcode : code ∈ seen
          · simp only [if_pos hcode, List.mem_cons, exists_eq_or_imp, hiso, Option.some.injEq]
            constructor
            · rintro (h | h)
              · exact .inl h
              · exact .inr (.inr h)
            · rintro (h | rfl | h)
              · exact .inl h
              · exact .inl hcode
              · exact .inr h
          · simp only [if_neg hcode, List.mem_append, List.mem_cons, List.not_mem_nil, false_or,
              exists_eq_or_imp, hiso, Option.some.injEq, or_assoc, @eq_comm _ iso code]
  obtain ⟨seen, hrun, hnodup, hmem⟩ := hfold [] [] List.nodup_nil
  exact ⟨seen, hrun, hnodup, fun iso ↦ by rw [hmem]; simp⟩

/-! ## Entities -/

/-- How many contacts are resolved to an entity. -/
def entityCount (active : List Doc) (entity : Option String) : Nat :=
  active.countP fun d ↦ resolved d = entity

/-- Names tell the entities of some contacts apart. -/
def NamesApart (active : List Doc) : Prop := ∀ d ∈ active, ∀ d' ∈ active,
  entityName (resolved d) = entityName (resolved d') → resolved d = resolved d'

/-- What `get_stats` says of the active QSOs. -/
structure Conserves (active : List Doc) (stats : Stats) : Prop where
  total : stats.totalQsos = active.length
  entities_le : stats.entityCounts.length ≤ 9
  entities_sum : (stats.entityCounts.map (·.2)).sum = stats.totalQsos
  entities : ∃ ranked : List (Option String), ranked.Nodup ∧
    (∀ entity, entity ∈ ranked ↔ ∃ d ∈ active, resolved d = entity) ∧
    (ranked.Pairwise fun e e' ↦ entityCount active e' ≤ entityCount active e) ∧
    (ranked.length ≤ 8 → stats.entityCounts =
      ranked.map fun e ↦ (entityName e, entityCount active e)) ∧
    (8 < ranked.length → stats.entityCounts =
      ((ranked.take 8).map fun e ↦ (entityName e, entityCount active e)) ++
        [("Other", active.countP fun d ↦ resolved d ∉ ranked.take 8)])
  unique : stats.uniqueEntityCount = (active.map resolved).dedup.length
  bands : (stats.bandCounts.map (·.2)).sum = active.countP fun d ↦ (groupKey "BAND" d).truthy
  modes : (stats.modeCounts.map (·.2)).sum = active.countP fun d ↦ (groupKey "MODE" d).truthy

omit [UnicodeData] [UnicodeDigits] [Countries] in
theorem total_groups {active : List Doc} {groups : List (Value × Nat)} {field : String}
    (h : groups.Perm (tally (groupKey field) (fun _ ↦ 1) active)) (P : Value → Bool) :
    Tally.total P groups = active.countP fun d ↦ P (groupKey field d) := by
  rw [total_perm h, total_tally, List.countP_eq_length_filter]
  simp

omit [UnicodeData] [UnicodeDigits] [Countries] in
theorem mem_groups {active : List Doc} {groups : List (Value × Nat)} {field : String}
    (h : groups.Perm (tally (groupKey field) (fun _ ↦ 1) active)) {k : Value} :
    (∃ group ∈ groups, group.1 = k) ↔ ∃ d ∈ active, groupKey field d = k := by
  have hkeys := @mem_keys_tally Doc Value _ (groupKey field) (fun _ ↦ 1) active k
  rw [← hkeys, List.mem_map]
  exact exists_congr fun group ↦ and_congr_left' h.mem_iff

section Entities

variable {active : List Doc} {groups : List (Value × Nat)}

/-- The tally of the groups of calls by the names of the entities. -/
def entityTotals (groups : List (Value × Nat)) : OrderedDict String Nat :=
  tally (fun group ↦ entityName (resolvedKey group.1)) (·.2) groups

variable (hgroups : groups.Perm (tally (groupKey "CALL") (fun _ ↦ 1) active))

include hgroups

theorem total_entityTotals (P : String → Bool) : Tally.total P (entityTotals groups) =
    active.countP fun d ↦ P (entityName (resolved d)) := by
  rw [entityTotals, total_tally]
  exact total_groups hgroups fun k ↦ P (entityName (resolvedKey k))

omit [Countries] in
theorem mem_resolvedKey {entity : Option String} :
    (∃ group ∈ groups, resolvedKey group.1 = entity) ↔ ∃ d ∈ active, resolved d = entity := by
  constructor
  · rintro ⟨group, hgroup, rfl⟩
    obtain ⟨d, hd, hkey⟩ := (mem_groups hgroups).1 ⟨group, hgroup, rfl⟩
    exact ⟨d, hd, congrArg resolvedKey hkey⟩
  · rintro ⟨d, hd, rfl⟩
    obtain ⟨group, hgroup, hkey⟩ := (mem_groups hgroups).2 ⟨d, hd, rfl⟩
    exact ⟨group, hgroup, congrArg resolvedKey hkey⟩

theorem mem_keys_entityTotals {name : String} : name ∈ (entityTotals groups).map (·.1) ↔
    ∃ d ∈ active, entityName (resolved d) = name := by
  rw [entityTotals, mem_keys_tally]
  constructor
  · rintro ⟨group, hgroup, rfl⟩
    obtain ⟨d, hd, heq⟩ := (mem_resolvedKey hgroups).1 ⟨group, hgroup, rfl⟩
    exact ⟨d, hd, congrArg entityName heq⟩
  · rintro ⟨d, hd, rfl⟩
    obtain ⟨group, hgroup, heq⟩ := (mem_resolvedKey hgroups).2 ⟨d, hd, rfl⟩
    exact ⟨group, hgroup, congrArg entityName heq⟩

/-- The totals are the entities with their counts, in some order. -/
theorem entityTotals_perm (hnames : NamesApart active) : (entityTotals groups).Perm
    ((active.map resolved).dedup.map fun e ↦ (entityName e, entityCount active e)) := by
  have hdistinct : (entityTotals groups).Distinct := distinct_tally ..
  have hcount : ∀ d ∈ active, Tally.total (fun name ↦ decide (name = entityName (resolved d)))
      (entityTotals groups) = entityCount active (resolved d) := by
    intro d hd
    rw [total_entityTotals hgroups, entityCount]
    refine List.countP_congr fun d' hd' ↦ ?_
    simp only [decide_eq_true_eq]
    exact ⟨hnames d' hd' d hd, congrArg entityName⟩
  have hapart : ((active.map resolved).dedup.map fun e ↦
      (entityName e, entityCount active e)).Nodup := by
    refine List.Nodup.map_on (fun e he e' he' heq ↦ ?_) (List.nodup_dedup _)
    obtain ⟨d, hd, rfl⟩ := List.mem_map.1 (List.mem_dedup.1 he)
    obtain ⟨d', hd', rfl⟩ := List.mem_map.1 (List.mem_dedup.1 he')
    exact hnames d hd d' hd' (congrArg Prod.fst heq)
  refine (List.perm_ext_iff_of_nodup (hdistinct.imp fun hne heq ↦ hne (congrArg Prod.fst heq))
    hapart).2 fun x ↦ ?_
  rw [List.mem_map]
  constructor
  · intro hx
    obtain ⟨d, hd, hname⟩ :=
      (mem_keys_entityTotals hgroups).1 (List.mem_map_of_mem (f := (·.1)) hx)
    refine ⟨resolved d, List.mem_dedup.2 (List.mem_map_of_mem hd), Prod.ext hname ?_⟩
    rw [← hcount d hd, hname]
    exact total_eq_of_mem hdistinct hx
  · rintro ⟨e, he, rfl⟩
    obtain ⟨d, hd, rfl⟩ := List.mem_map.1 (List.mem_dedup.1 he)
    obtain ⟨⟨name, n⟩, hx, hname⟩ :=
      List.mem_map.1 ((mem_keys_entityTotals hgroups).2 ⟨d, hd, rfl⟩)
    obtain rfl : name = entityName (resolved d) := hname
    rwa [← hcount d hd, total_eq_of_mem hdistinct hx]

omit hgroups

omit [UnicodeData] [UnicodeDigits] [Countries] in
/-- Showing the rest in one loses no count. -/
theorem sum_topEntities (sorted : List (String × Nat)) :
    ((topEntities sorted).map (·.2)).sum = (sorted.map (·.2)).sum := by
  rw [topEntities]
  split
  · rfl
  · conv_rhs => rw [← List.take_append_drop 8 sorted]
    simp only [List.map_append, List.sum_append, List.map_cons, List.map_nil, List.sum_singleton]

omit [UnicodeData] [UnicodeDigits] [Countries] in
theorem length_topEntities_le (sorted : List (String × Nat)) :
    (topEntities sorted).length ≤ 9 := by
  rw [topEntities]
  split
  · omega
  · rw [List.length_append, List.length_take, List.length_singleton]
    omega

/-- **The entities that are shown** are the largest ones, and the remainder. -/
theorem exists_ranked (hgroups : groups.Perm (tally (groupKey "CALL") (fun _ ↦ 1) active))
    (hnames : NamesApart active) : ∃ ranked : List (Option String), ranked.Nodup ∧
    (∀ entity, entity ∈ ranked ↔ ∃ d ∈ active, resolved d = entity) ∧
    (ranked.Pairwise fun e e' ↦ entityCount active e' ≤ entityCount active e) ∧
    (entityTotals groups).insertionSort (fun x y ↦ y.2 ≤ x.2) =
      ranked.map fun e ↦ (entityName e, entityCount active e) := by
  have hsorted := (List.perm_insertionSort (fun x y : String × Nat ↦ y.2 ≤ x.2)
    (entityTotals groups)).trans (entityTotals_perm hgroups hnames)
  obtain ⟨ranked, hperm, hmap⟩ := exists_map_eq_of_perm hsorted
  refine ⟨ranked, hperm.nodup_iff.2 (List.nodup_dedup _), fun entity ↦ ?_, ?_, hmap.symm⟩
  · rw [hperm.mem_iff, List.mem_dedup, List.mem_map]
  · have htotal : Std.Total fun x y : String × Nat ↦ y.2 ≤ x.2 := ⟨fun x y ↦ Nat.le_total y.2 x.2⟩
    have htrans : IsTrans (String × Nat) fun x y ↦ y.2 ≤ x.2 :=
      ⟨fun x y z hxy hyz ↦ Nat.le_trans hyz hxy⟩
    have hpairwise := List.pairwise_insertionSort (fun x y : String × Nat ↦ y.2 ≤ x.2)
      (entityTotals groups)
    rw [← hmap, List.pairwise_map] at hpairwise
    exact hpairwise

omit [Countries] in
/-- The remainder, when the first eight entities are shown. -/
theorem sum_drop_eq {ranked : List (Option String)} (hnodup : ranked.Nodup)
    (hmem : ∀ entity, entity ∈ ranked ↔ ∃ d ∈ active, resolved d = entity) (n : Nat) :
    ((ranked.drop n).map (entityCount active)).sum =
      active.countP fun d ↦ resolved d ∉ ranked.take n := by
  rw [← List.take_append_drop n ranked, List.nodup_append] at hnodup
  have hsum := sum_countP_eq resolved active hnodup.2.1
  refine Eq.trans hsum (List.countP_congr fun d hd ↦ ?_)
  simp only [decide_eq_true_eq]
  constructor
  · exact fun hdrop htake ↦ hnodup.2.2 _ htake _ hdrop rfl
  · intro hnot
    have hin := (hmem (resolved d)).2 ⟨d, hd, rfl⟩
    rw [← List.take_append_drop n ranked, List.mem_append] at hin
    exact hin.resolve_left hnot

end Entities

omit [Countries] in
/-- The number of entities, the unresolved calls being one. -/
theorem length_dedup_resolved {active : List Doc} {seen : List String} (hseen : seen.Nodup)
    (hmem : ∀ iso, iso ∈ seen ↔ ∃ d ∈ active, resolved d = some iso) :
    (active.map resolved).dedup.length =
      seen.length + if none ∈ active.map resolved then 1 else 0 := by
  have hperm : (active.map resolved).dedup.Perm
      (seen.map some ++ if none ∈ active.map resolved then [none] else []) := by
    refine (List.perm_ext_iff_of_nodup (List.nodup_dedup _) ?_).2 fun entity ↦ ?_
    · refine List.nodup_append.2 ⟨hseen.map (Option.some_injective _), ?_, ?_⟩
      · split
        · exact List.nodup_singleton _
        · exact List.nodup_nil
      · intro e he e' he' heq
        obtain ⟨iso, -, rfl⟩ := List.mem_map.1 he
        split at he'
        · rw [List.mem_singleton.1 he'] at heq
          cases heq
        · exact absurd he' List.not_mem_nil
    · rw [List.mem_dedup, List.mem_append]
      cases entity with
      | none =>
        have hno : none ∉ seen.map some := by simp
        split <;> simp_all
      | some iso =>
        have hno : some iso ∉ (if none ∈ active.map resolved then [none] else []) := by
          split <;> simp
        rw [List.mem_map_of_injective (Option.some_injective _), hmem, List.mem_map]
        exact ⟨fun h ↦ .inl h, fun h ↦ h.resolve_right hno⟩
  rw [hperm.length_eq, List.length_append, List.length_map]
  split <;> rfl

variable [GroupOrder]

omit [UnicodeData] [UnicodeDigits] [Countries] in
/-- The groups of a field of texts, as `get_stats` shows them. -/
theorem namedCounts_groups {active : List Doc} {field : String}
    (htext : ∀ d ∈ active, ∀ v, d[field]? = some v → v = .null ∨ ∃ s, v = .str s) :
    ∃ counts, namedCounts (GroupOrder.arranged (tally (groupKey field) (fun _ ↦ 1) active)) =
      .ok counts ∧ (counts.map (·.2)).sum = active.countP fun d ↦ (groupKey field d).truthy := by
  have hperm := GroupOrder.arranged_perm (tally (groupKey field) (fun _ ↦ 1) active)
  refine ⟨_, namedCounts_eq_ok (distinct_of_perm hperm (distinct_tally ..)) fun group hgroup ↦ ?_,
    total_groups hperm Value.truthy⟩
  obtain ⟨d, hd, hkey⟩ := (mem_groups hperm).1 ⟨group, hgroup, rfl⟩
  rw [← hkey, groupKey]
  cases hv : d[field]? with
  | none => exact .inl rfl
  | some v => exact htext d hd v hv

theorem wp_getStats {c : Collection} {callsign : String}
    (hcall : ∀ d ∈ c.docs.filter (activeQuery callsign), ∃ s, d["CALL"]? = some (.str s))
    (htext : ∀ d ∈ c.docs.filter (activeQuery callsign), ∀ k ∈ ["BAND", "MODE"], ∀ v,
      d[k]? = some v → v = .null ∨ ∃ s, v = .str s)
    (hnames : NamesApart (c.docs.filter (activeQuery callsign)))
    (hunknown : ∀ d ∈ c.docs.filter (activeQuery callsign),
      entityName (resolved d) = "Unknown" → resolved d = none) :
    Effects.wp (getStats callsign)
      (fun stats c' ↦ c' = c ∧ Conserves (c.docs.filter (activeQuery callsign)) stats)
      (fun _ _ ↦ False) c := by
  generalize hactive : c.docs.filter (activeQuery callsign) = active at *
  obtain ⟨bands, hbands, hbandSum⟩ := namedCounts_groups fun d hd ↦ htext d hd "BAND" (by simp)
  obtain ⟨modes, hmodes, hmodeSum⟩ := namedCounts_groups fun d hd ↦ htext d hd "MODE" (by simp)
  have hperm := GroupOrder.arranged_perm (tally (groupKey "CALL") (fun _ ↦ 1) active)
  have hcalls : ∀ group ∈ GroupOrder.arranged (tally (groupKey "CALL") (fun _ ↦ 1) active),
      ∃ s, group.1 = .str s := by
    intro group hgroup
    obtain ⟨d, hd, hkey⟩ := (mem_groups hperm).1 ⟨group, hgroup, rfl⟩
    obtain ⟨s, hs⟩ := hcall d hd
    exact ⟨s, by rw [← hkey, groupKey, hs]; rfl⟩
  obtain ⟨seen, hrolled, hnodup, hseen⟩ := exists_rollUp hcalls
  simp only [getStats, groupCounts, Effects.wp_bind, Effects.wp_get, Effects.wp_pure,
    Effects.wp_ofExcept, wp_countDocuments, Effects.wp_ite, hactive, hbands, hmodes, hrolled,
    Except.ok.injEq, forall_eq', reduceCtorEq, false_imp_iff, implies_true, and_true, true_and]
  constructor
  · intro hempty
    rw [List.length_eq_zero_iff.1 hempty]
    exact ⟨rfl, Nat.zero_le _, rfl, ⟨[], List.nodup_nil, by simp, List.Pairwise.nil, fun _ ↦ rfl,
      fun h ↦ absurd h (Nat.not_lt_zero _)⟩, rfl, rfl, rfl⟩
  · intro _
    obtain ⟨ranked, hrankedNodup, hrankedMem, hrankedPairwise, hranked⟩ :=
      exists_ranked hperm hnames
    have hsum : ((entityTotals (GroupOrder.arranged (tally (groupKey "CALL") (fun _ ↦ 1)
        active))).map (·.2)).sum = active.length := by
      rw [← total_true, total_entityTotals hperm, List.countP_true]
    refine ⟨rfl, length_topEntities_le _, ?_, ⟨ranked, hrankedNodup, hrankedMem, hrankedPairwise,
      fun hle ↦ ?_, fun hlt ↦ ?_⟩, ?_, hbandSum, hmodeSum⟩
    · rw [sum_topEntities, ((List.perm_insertionSort ..).map _).sum_eq]
      exact hsum
    · rw [← entityTotals, hranked, topEntities, List.length_map, if_pos hle]
    · rw [← entityTotals, hranked, topEntities, List.length_map, if_neg (Nat.not_le.2 hlt),
        ← List.map_take, ← List.map_drop, List.map_map, ← sum_drop_eq hrankedNodup hrankedMem]
      rfl
    · have hmem : ∀ iso, iso ∈ seen ↔ ∃ d ∈ active, resolved d = some iso := fun iso ↦
        (hseen iso).trans (mem_resolvedKey hperm)
      have hnone : "Unknown" ∈ (entityTotals (GroupOrder.arranged (tally (groupKey "CALL")
          (fun _ ↦ 1) active))).map (·.1) ↔ none ∈ active.map resolved := by
        rw [mem_keys_entityTotals hperm, List.mem_map]
        refine exists_congr fun d ↦ and_congr_right fun hd ↦ ⟨hunknown d hd, fun h ↦ ?_⟩
        rw [h]
        rfl
      rw [length_dedup_resolved hnodup hmem, ← entityTotals]
      simp only [hnone]

/-- **Statistics conserve contacts.**  Of a log whose calls are texts, and whose bands and modes are
texts or missing, every active QSO is counted once in each statistic it belongs to. -/
theorem getStats_conserves {c : Collection} {callsign : String}
    (hcall : ∀ d ∈ c.docs.filter (activeQuery callsign), ∃ s, d["CALL"]? = some (.str s))
    (htext : ∀ d ∈ c.docs.filter (activeQuery callsign), ∀ k ∈ ["BAND", "MODE"], ∀ v,
      d[k]? = some v → v = .null ∨ ∃ s, v = .str s)
    (hinjective : ∀ r ∈ ituRanges, ∀ r' ∈ ituRanges, ∀ iso ∈ r.iso, ∀ iso' ∈ r'.iso,
      entityName (some iso) = entityName (some iso') → iso = iso')
    (hunknown : ∀ r ∈ ituRanges, ∀ iso ∈ r.iso, entityName (some iso) ≠ "Unknown") :
    ∃ stats, getStats callsign c = .ok stats c ∧
      Conserves (c.docs.filter (activeQuery callsign)) stats := by
  have hcode : ∀ d iso, resolved d = some iso → ∃ r ∈ ituRanges, iso ∈ r.iso := by
    intro d iso h
    unfold resolved resolvedKey at h
    split at h
    · exact exists_of_lookupPrefix h
    · cases h
  have hknown : ∀ d, entityName (resolved d) = "Unknown" → resolved d = none := by
    intro d h
    cases hd : resolved d with
    | none => rfl
    | some iso =>
      obtain ⟨r, hr, hiso⟩ := hcode d iso hd
      exact absurd (hd ▸ h) (hunknown r hr iso hiso)
  have hnames : NamesApart (c.docs.filter (activeQuery callsign)) := by
    intro d _ d' _ heq
    cases hd : resolved d with
    | none =>
      rw [hd] at heq
      exact (hknown d' heq.symm).symm
    | some iso =>
      cases hd' : resolved d' with
      | none =>
        rw [hd'] at heq
        exact absurd (hknown d heq) (by rw [hd]; exact Option.some_ne_none _)
      | some iso' =>
        obtain ⟨r, hr, hiso⟩ := hcode d iso hd
        obtain ⟨r', hr', hiso'⟩ := hcode d' iso' hd'
        rw [hd, hd'] at heq
        rw [hinjective r hr r' hr' iso hiso iso' hiso' heq]
  obtain ⟨stats, c', hrun, rfl, hconserves⟩ := Effects.exists_ok_iff_wp.2
    (wp_getStats hcall htext hnames fun d _ ↦ hknown d)
  exact ⟨stats, hrun, hconserves⟩

end Stats

section Concrete

attribute [local instance] UnicodeData.ascii UnicodeDigits.ascii

/-- The one country that is asked for. -/
@[reducible] def Countries.unitedStates : Countries where
  name iso := if iso = "US" then some "United States" else none

/-- A server that leaves groups in the order of their first documents. -/
@[reducible] def GroupOrder.first : GroupOrder := ⟨id, fun _ ↦ .refl _⟩

attribute [local instance] Countries.unitedStates GroupOrder.first

/-- A QSO on 20 metres. -/
def qsoOn20M (n : BitVec 96) (call : String) (mode : Value) : Doc :=
  ((((((∅ : Doc).insert "_id" (.oid ⟨n⟩)).insert "_operator" (.str "AA1AA")).insert "_deleted"
    (.bool false)).insert "CALL" (.str call)).insert "BAND" (.str "20M")).insert "MODE" mode

theorem stored_qsoOn20M {n : BitVec 96} {call : String} {mode : Value}
    (hmode : mode.isStored = true) : (qsoOn20M n call mode).Stored :=
  stored_insert (stored_insert (stored_insert (stored_insert (stored_insert (stored_insert
    stored_empty (by decide) rfl) (by decide) rfl) (by decide) rfl) (by decide) rfl) (by decide)
      rfl) (by decide) hmode

/-- A log of two calls of one country, one of another and one that no country has, one of them
without a mode. -/
def logOn20M : Collection where
  fullName := "ollog.aa1aa_qsos"
  rowHashUnique := true
  docs := [qsoOn20M 1 "W1AW" (.str "CW"), qsoOn20M 2 "K1ABC" .null,
    qsoOn20M 3 "VE3XYZ" (.str "SSB"), qsoOn20M 4 "Q1ABC" (.str "CW")]
  docs_stored := by
    simp only [List.forall_mem_cons]
    exact ⟨stored_qsoOn20M rfl, stored_qsoOn20M rfl, stored_qsoOn20M rfl, stored_qsoOn20M rfl,
      List.forall_mem_nil _⟩
  ids_present := by decide +kernel
  ids_ok := by decide +kernel
  ids_distinct := by decide +kernel
  hashes_distinct := by decide +kernel

theorem entityName_unitedStates (iso : String) :
    entityName (some iso) = if iso = "US" then "United States" else iso := by
  by_cases h : iso = "US" <;> simp [entityName, Countries.name, h]

theorem getStats_conserves_on20M : ∃ stats, getStats "AA1AA" logOn20M = .ok stats logOn20M ∧
    Conserves (logOn20M.docs.filter (activeQuery "AA1AA")) stats := by
  have hnames : ∀ r ∈ ituRanges, r.iso ≠ some "United States" ∧ r.iso ≠ some "Unknown" := by
    decide +kernel
  have hdocs : ∀ d ∈ logOn20M.docs, (∃ call, d["CALL"]? = some (.str call)) ∧
      d["BAND"]? = some (.str "20M") ∧
      (d["MODE"]? = some .null ∨ ∃ mode, d["MODE"]? = some (.str mode)) := by
    have hfields : ∀ n call mode, (qsoOn20M n call mode)["CALL"]? = some (.str call) ∧
        (qsoOn20M n call mode)["BAND"]? = some (.str "20M") ∧
        (qsoOn20M n call mode)["MODE"]? = some mode := by
      intro n call mode
      simp only [qsoOn20M, Doc.getElem?_insert]
      exact ⟨rfl, rfl, rfl⟩
    refine List.forall_mem_cons.2 ⟨?_, List.forall_mem_cons.2 ⟨?_, List.forall_mem_cons.2 ⟨?_,
      List.forall_mem_singleton.2 ?_⟩⟩⟩
    all_goals obtain ⟨hcall, hband, hmode⟩ := hfields _ _ _
    · exact ⟨⟨_, hcall⟩, hband, .inr ⟨_, hmode⟩⟩
    · exact ⟨⟨_, hcall⟩, hband, .inl hmode⟩
    · exact ⟨⟨_, hcall⟩, hband, .inr ⟨_, hmode⟩⟩
    · exact ⟨⟨_, hcall⟩, hband, .inr ⟨_, hmode⟩⟩
  refine getStats_conserves (fun d hd ↦ (hdocs d (List.mem_filter.1 hd).1).1)
    (fun d hd k hk v hv ↦ ?_) (fun r hr r' hr' iso hiso iso' hiso' heq ↦ ?_)
    fun r hr iso hiso heq ↦ ?_
  · obtain ⟨-, hband, hmode⟩ := hdocs d (List.mem_filter.1 hd).1
    simp only [List.mem_cons, List.not_mem_nil, or_false] at hk
    rcases hk with rfl | rfl
    · exact .inr ⟨"20M", Option.some.inj (hv.symm.trans hband)⟩
    · rcases hmode with hmode | ⟨mode, hmode⟩
      · exact .inl (Option.some.inj (hv.symm.trans hmode))
      · exact .inr ⟨mode, Option.some.inj (hv.symm.trans hmode)⟩
  · rw [entityName_unitedStates, entityName_unitedStates] at heq
    split at heq <;> split at heq
    · rename_i h h'
      exact h.trans h'.symm
    · exact absurd (heq ▸ hiso') (hnames r' hr').1
    · exact absurd (heq ▸ hiso) (hnames r hr).1
    · exact heq
  · rw [entityName_unitedStates] at heq
    split at heq
    · exact absurd heq (by decide)
    · exact (hnames r hr).2 (heq ▸ hiso)

/-- Two of the four contacts are with one country, and one has no country. -/
example : (match getStats "AA1AA" logOn20M with
    | .ok stats _ => (stats.entityCounts, stats.uniqueEntityCount, stats.totalQsos)
    | .error _ _ => ([], 0, 0)) = ([("United States", 2), ("CA", 1), ("Unknown", 1)], 3, 4) := by
  decide +kernel

end Concrete

end Ollog

import Mathlib.Tactic.Common

/-!
# Dictionaries that remember an order

A dictionary whose keys come in the order in which they were first set, as an association list.
Setting a key that is there leaves it in its place.
-/

set_option autoImplicit false

variable {α β : Type}

/-- A dictionary, as the list of its items. -/
abbrev OrderedDict (α β : Type) := List (α × β)

namespace OrderedDict

variable [DecidableEq α]

/-- The value of a key. -/
def get (d : OrderedDict α β) (k : α) : Option β :=
  match d with
  | [] => none
  | (j, v) :: d => if j = k then some v else get d k

/-- Set a key. -/
def set (d : OrderedDict α β) (k : α) (v : β) : OrderedDict α β :=
  match d with
  | [] => [(k, v)]
  | (j, w) :: d => if j = k then (j, v) :: d else (j, w) :: set d k v

/-- Remove a key. -/
def erase (d : OrderedDict α β) (k : α) : OrderedDict α β := d.filter fun item ↦ item.1 ≠ k

/-- The dictionary of some items; of two with one key, the later one counts. -/
def ofItems (items : List (α × β)) : OrderedDict α β :=
  items.foldl (fun d item ↦ d.set item.1 item.2) []

@[simp] theorem get_nil (k : α) : get ([] : OrderedDict α β) k = none := rfl

theorem get_cons (item : α × β) (d : OrderedDict α β) (k : α) :
    get (item :: d) k = if item.1 = k then some item.2 else get d k := rfl

@[simp] theorem get_set (d : OrderedDict α β) (k : α) (v : β) (j : α) :
    get (d.set k v) j = if j = k then some v else get d j := by
  induction d with
  | nil =>
    rw [set, get_cons]
    simp only [@eq_comm _ k j]
  | cons item d ih =>
    obtain ⟨i, w⟩ := item
    rw [set]
    by_cases hi : i = k
    · subst hi
      rw [if_pos rfl, get_cons, get_cons]
      by_cases hj : i = j
      · rw [if_pos hj, if_pos hj.symm]
      · rw [if_neg hj, if_neg fun h ↦ hj h.symm, if_neg hj]
    · rw [if_neg hi, get_cons, get_cons, ih]
      by_cases hj : i = j
      · subst hj
        rw [if_pos rfl, if_pos rfl, if_neg hi]
      · rw [if_neg hj, if_neg hj]

theorem get_filter {p : α → Bool} (d : OrderedDict α β) (k : α) :
    get (d.filter fun item ↦ p item.1) k = if p k then get d k else none := by
  induction d with
  | nil => exact (ite_self _).symm
  | cons item d ih =>
    rw [List.filter_cons]
    by_cases hk : item.1 = k
    · subst hk
      by_cases hp : p item.1 = true
      · rw [if_pos hp, if_pos hp, get_cons, get_cons]
        simp only [if_true]
      · rw [if_neg hp, if_neg hp, ih, if_neg hp]
    · split
      · rw [get_cons, if_neg hk, ih, get_cons, if_neg hk]
      · rw [ih, get_cons, if_neg hk]

@[simp] theorem get_erase (d : OrderedDict α β) (k j : α) :
    get (d.erase k) j = if j = k then none else get d j := by
  rw [erase, get_filter (p := fun j ↦ decide (j ≠ k))]
  by_cases hj : j = k
  · rw [if_pos hj, if_neg (by simpa using hj)]
  · rw [if_neg hj, if_pos (by simpa using hj)]

/-- A loop over some items that never touches a key leaves its value. -/
theorem get_foldl_of_frame {ι : Type} {f : OrderedDict α β → ι → OrderedDict α β} {items : List ι}
    {k : α} (hf : ∀ item ∈ items, ∀ d, get (f d item) k = get d k) (d : OrderedDict α β) :
    get (items.foldl f d) k = get d k := by
  induction items generalizing d with
  | nil => rfl
  | cons item items ih =>
    rw [List.foldl_cons, ih fun i hi ↦ hf i (List.mem_cons_of_mem _ hi),
      hf item (List.mem_cons_self ..)]

/-! ## Distinct keys -/

/-- No key comes twice. -/
def Distinct (d : OrderedDict α β) : Prop := d.Pairwise fun item item' ↦ item.1 ≠ item'.1

theorem get_eq_none_iff {d : OrderedDict α β} {k : α} : get d k = none ↔ ∀ item ∈ d, item.1 ≠ k := by
  induction d with
  | nil => exact ⟨fun _ _ h ↦ absurd h List.not_mem_nil, fun _ ↦ rfl⟩
  | cons item d ih =>
    rw [get_cons, List.forall_mem_cons, ← ih]
    split
    · rename_i hk
      exact ⟨fun h ↦ (nomatch h), fun h ↦ absurd hk h.1⟩
    · rename_i hk
      exact ⟨fun h ↦ ⟨hk, h⟩, fun h ↦ h.2⟩

theorem mem_of_get {d : OrderedDict α β} {k : α} {v : β} (h : get d k = some v) : (k, v) ∈ d := by
  induction d with
  | nil => cases h
  | cons item d ih =>
    rw [get_cons] at h
    split at h
    · rename_i hk
      obtain rfl := Option.some.inj h
      exact hk ▸ List.mem_cons_self ..
    · exact List.mem_cons_of_mem _ (ih h)

theorem Distinct.get_eq_some {d : OrderedDict α β} (hd : d.Distinct) {item : α × β}
    (h : item ∈ d) : get d item.1 = some item.2 := by
  induction d with
  | nil => cases h
  | cons item' d ih =>
    obtain ⟨hhead, htail⟩ := List.pairwise_cons.1 hd
    rw [get_cons]
    obtain rfl | h := List.mem_cons.1 h
    · rw [if_pos rfl]
    · rw [if_neg (hhead item h), ih htail h]

theorem mem_set {d : OrderedDict α β} {k : α} {v : β} {item : α × β} (h : item ∈ d.set k v) :
    item = (k, v) ∨ item ∈ d := by
  induction d with
  | nil => exact .inl (List.mem_singleton.1 h)
  | cons item' d ih =>
    obtain ⟨j, w⟩ := item'
    rw [set] at h
    split at h
    · rename_i hj
      obtain rfl | h := List.mem_cons.1 h
      · exact .inl (by rw [hj])
      · exact .inr (List.mem_cons_of_mem _ h)
    · obtain rfl | h := List.mem_cons.1 h
      · exact .inr (List.mem_cons_self ..)
      · exact (ih h).imp_right (List.mem_cons_of_mem _)

theorem Distinct.set {d : OrderedDict α β} (hd : d.Distinct) (k : α) (v : β) :
    (d.set k v).Distinct := by
  induction d with
  | nil => exact List.pairwise_singleton ..
  | cons item d ih =>
    obtain ⟨j, w⟩ := item
    obtain ⟨hhead, htail⟩ := List.pairwise_cons.1 hd
    rw [OrderedDict.set]
    split
    · exact List.pairwise_cons.2 ⟨hhead, htail⟩
    · rename_i hj
      refine List.pairwise_cons.2 ⟨fun item hitem ↦ ?_, ih htail⟩
      obtain rfl | hitem := mem_set hitem
      · exact hj
      · exact hhead item hitem

omit [DecidableEq α] in
/-- A loop that only sets keys keeps them distinct. -/
theorem Distinct.foldl {ι : Type} {f : OrderedDict α β → ι → OrderedDict α β}
    (hf : ∀ d, d.Distinct → ∀ i, (f d i).Distinct) {items : List ι} {d : OrderedDict α β}
    (hd : d.Distinct) : (items.foldl f d).Distinct := by
  induction items generalizing d with
  | nil => exact hd
  | cons i items ih => exact ih (hf d hd i)

omit [DecidableEq α] in
theorem distinct_nil : Distinct ([] : OrderedDict α β) := List.Pairwise.nil

theorem distinct_ofItems (items : List (α × β)) : (ofItems items).Distinct :=
  distinct_nil.foldl fun _ hd item ↦ hd.set item.1 item.2

theorem mem_ofItems {items : List (α × β)} {item : α × β} (h : item ∈ ofItems items) :
    item ∈ items := by
  have hfold : ∀ (items : List (α × β)) (d : OrderedDict α β),
      item ∈ items.foldl (fun d item ↦ d.set item.1 item.2) d → item ∈ items ∨ item ∈ d := by
    intro items
    induction items with
    | nil => exact fun d h ↦ .inr h
    | cons item' items ih =>
      intro d h
      obtain h | h := ih _ h
      · exact .inl (List.mem_cons_of_mem _ h)
      · obtain rfl | h := mem_set h
        · exact .inl (List.mem_cons_self ..)
        · exact .inr h
  exact (hfold items [] h).resolve_right List.not_mem_nil

theorem Distinct.erase {d : OrderedDict α β} (hd : d.Distinct) (k : α) : (d.erase k).Distinct :=
  hd.filter _

/-- Filtering the items filters the value of every key. -/
theorem Distinct.get_filter {d : OrderedDict α β} (hd : d.Distinct) (p : α × β → Bool) (k : α) :
    get (d.filter p) k = (get d k).filter fun v ↦ p (k, v) := by
  induction d with
  | nil => rfl
  | cons item d ih =>
    obtain ⟨hhead, htail⟩ := List.pairwise_cons.1 hd
    have hnone : ∀ k, item.1 = k → get d k = none := fun k hk ↦
      get_eq_none_iff.2 fun item' hitem' heq ↦ hhead item' hitem' (hk.trans heq.symm)
    rw [List.filter_cons, get_cons]
    by_cases hk : item.1 = k
    · rw [if_pos hk]
      subst hk
      split
      · rename_i hp
        rw [get_cons, if_pos rfl, Option.filter_some, if_pos hp]
      · rename_i hp
        rw [ih htail, hnone _ rfl, Option.filter_some, if_neg hp, Option.filter_none]
    · rw [if_neg hk]
      split
      · rw [get_cons, if_neg hk, ih htail]
      · rw [ih htail]

/-- A key that is not there is added at the end. -/
theorem set_eq_append {d : OrderedDict α β} {k : α} (h : get d k = none) (v : β) :
    d.set k v = d ++ [(k, v)] := by
  induction d with
  | nil => rfl
  | cons item d ih =>
    obtain ⟨j, w⟩ := item
    rw [get_cons] at h
    split at h
    · cases h
    · rename_i hj
      rw [set, if_neg hj, ih h]
      rfl

theorem foldl_set_eq_append {items : List (α × β)} {d : OrderedDict α β}
    (h : Distinct (d ++ items)) :
    items.foldl (fun d item ↦ d.set item.1 item.2) d = d ++ items := by
  induction items generalizing d with
  | nil => exact (List.append_nil d).symm
  | cons item items ih =>
    have hnone : get d item.1 = none := get_eq_none_iff.2 fun item' hitem' ↦
      (List.pairwise_append.1 h).2.2 item' hitem' item (List.mem_cons_self ..)
    rw [List.foldl_cons, set_eq_append hnone, ih (by rwa [List.append_assoc]), List.append_assoc]
    rfl

/-- **The dictionary of the items of a dictionary** is that dictionary. -/
theorem Distinct.ofItems_eq {d : OrderedDict α β} (hd : d.Distinct) : ofItems d = d :=
  foldl_set_eq_append hd

/-! ## Renaming keys one after the other -/

/-- Give the value of one key to another one, if there is a value. -/
def move (d : OrderedDict α β) (names : α × α) : OrderedDict α β :=
  match d.get names.1 with
  | none => d
  | some v => if names.2 = names.1 then d else (d.erase names.1).set names.2 v

/-- All of the values have moved at once: every target holds what its source has held, a source that
is nobody's target holds nothing, and no other key has changed. -/
def Renamed (names : List (α × α)) (d result : OrderedDict α β) : Prop :=
  (∀ pair ∈ names, get result pair.2 = get d pair.1) ∧
  ∀ k ∉ names.map Prod.snd, get result k = if k ∈ names.map Prod.fst then none else get d k

theorem get_move_of_ne (d : OrderedDict α β) {names : α × α} {k : α} (hsource : k ≠ names.1)
    (htarget : k ≠ names.2) : get (d.move names) k = get d k := by
  rw [move]
  split
  · rfl
  split
  · rfl
  · rw [get_set, if_neg htarget, get_erase, if_neg hsource]

theorem get_move_source (d : OrderedDict α β) {names : α × α} (h : names.1 ≠ names.2) :
    get (d.move names) names.1 = none := by
  rw [move]
  split
  · assumption
  · rw [if_neg h.symm, get_set, if_neg h, get_erase, if_pos rfl]

theorem move_eq_self {d : OrderedDict α β} {names : α × α} (h : get d names.1 = none) :
    d.move names = d := by
  rw [move, h]

theorem get_move_target {d : OrderedDict α β} {names : α × α} {v : β}
    (h : get d names.1 = some v) : get (d.move names) names.2 = some v := by
  rw [move, h]
  dsimp only
  split
  · rename_i heq
    rw [heq, h]
  · rw [get_set, if_pos rfl]

/-- A key that is nobody's target does not come back. -/
theorem get_foldl_move_eq_none {names : List (α × α)} {d : OrderedDict α β} {k : α}
    (htargets : ∀ pair ∈ names, pair.2 ≠ k) (h : get d k = none) :
    get (names.foldl move d) k = none := by
  induction names generalizing d with
  | nil => exact h
  | cons pair names ih =>
    refine ih (fun p hp ↦ htargets p (List.mem_cons_of_mem _ hp)) ?_
    by_cases hsource : k = pair.1
    · subst hsource
      exact get_move_source d fun heq ↦ htargets pair (List.mem_cons_self ..) heq.symm
    · rw [get_move_of_ne d hsource fun heq ↦ htargets pair (List.mem_cons_self ..) heq.symm, h]

/-- **Moving the values one after the other moves them all at once**, unless a value is moved to a
key whose turn is still to come. -/
theorem renamed_foldl_move {names : List (α × α)} {d : OrderedDict α β}
    (hsources : (names.map Prod.fst).Nodup) (htargets : (names.map Prod.snd).Nodup)
    (hfree : ∀ pair ∈ names, pair.2 ∉ names.map Prod.fst → get d pair.2 = none)
    (hlater : names.Pairwise fun pair pair' ↦ get d pair.1 ≠ none → pair.2 ≠ pair'.1) :
    Renamed names d (names.foldl move d) := by
  induction names generalizing d with
  | nil => exact ⟨fun _ h ↦ absurd h List.not_mem_nil, fun _ _ ↦ rfl⟩
  | cons pair names ih =>
    obtain ⟨hsource, hsources⟩ := List.nodup_cons.1 hsources
    obtain ⟨htarget, htargets⟩ := List.nodup_cons.1 htargets
    obtain ⟨hpair, hlater⟩ := List.pairwise_cons.1 hlater
    -- The sources that come later still hold what they held.
    have hkept : ∀ pair' ∈ names, get (d.move pair) pair'.1 = get d pair'.1 := by
      intro pair' hmem
      have hne : pair'.1 ≠ pair.1 := fun heq ↦ hsource (heq ▸ List.mem_map_of_mem hmem)
      by_cases hnone : get d pair.1 = none
      · rw [move_eq_self hnone]
      · exact get_move_of_ne d hne (hpair pair' hmem hnone).symm
    have hfree' : ∀ pair' ∈ names, pair'.2 ∉ names.map Prod.fst →
        get (d.move pair) pair'.2 = none := by
      intro pair' hmem hnot
      have hne : pair'.2 ≠ pair.2 := fun heq ↦ htarget (heq ▸ List.mem_map_of_mem hmem)
      by_cases hfirst : pair'.2 = pair.1
      · rw [hfirst]
        exact get_move_source d fun heq ↦ hne (hfirst.trans heq)
      · rw [get_move_of_ne d hfirst hne]
        refine hfree pair' (List.mem_cons_of_mem _ hmem) fun h ↦ ?_
        obtain h | h := List.mem_cons.1 h
        · exact hfirst h
        · exact hnot h
    obtain ⟨hmoved, hrest⟩ := ih hsources htargets hfree' (hlater.imp_of_mem fun hmem _ h hne ↦
      h (by rwa [← hkept _ hmem]))
    rw [List.foldl_cons]
    refine ⟨fun pair' hmem ↦ ?_, fun k hk ↦ ?_⟩
    · obtain rfl | hmem := List.mem_cons.1 hmem
      · rw [hrest _ htarget]
        cases hv : get d pair'.1 with
        | some v =>
          rw [if_neg, get_move_target hv]
          intro h
          obtain ⟨later, hmem, heq⟩ := List.mem_map.1 h
          exact hpair later hmem (by rw [hv]; exact (nomatch ·)) heq.symm
        | none =>
          rw [move_eq_self hv, ite_eq_left_iff]
          intro hnot
          by_cases hsame : pair'.2 = pair'.1
          · rw [hsame, hv]
          · exact hfree pair' (List.mem_cons_self ..) fun h ↦
            (List.mem_cons.1 h).elim hsame hnot
      · rw [hmoved pair' hmem, hkept pair' hmem]
    · obtain ⟨hk, hnot⟩ := not_or.1 (mt List.mem_cons.2 hk)
      rw [hrest k hnot]
      by_cases hfirst : k = pair.1
      · subst hfirst
        have hmem : pair.1 ∈ (pair :: names).map Prod.fst := List.mem_cons_self ..
        rw [if_pos hmem, get_move_source d hk, ite_self]
      · rw [get_move_of_ne d hfirst hk]
        simp only [List.map_cons, List.mem_cons, hfirst, false_or]

/-- A value that is moved to a key whose turn is still to come is not there at the end. -/
theorem not_renamed_foldl_move {names : List (α × α)} {pair pair' : α × α} {d : OrderedDict α β}
    (hsub : [pair, pair'].Sublist names) (htargets : (names.map Prod.snd).Nodup)
    (hvalue : get d pair.1 ≠ none) (hlater : pair.2 = pair'.1) :
    ¬ Renamed names d (names.foldl move d) := by
  intro h
  obtain ⟨first, rest, rfl, hpair, hsub⟩ := List.cons_sublist_iff.1 hsub
  obtain ⟨mid, post, rfl⟩ := List.append_of_mem (List.singleton_sublist.1 hsub)
  have hmoved := h.1 pair (List.mem_append_left _ hpair)
  rw [List.foldl_append, List.foldl_append, List.foldl_cons] at hmoved
  rw [List.map_append, List.nodup_append] at htargets
  obtain ⟨-, -, hdisjoint⟩ := htargets
  have hne : ∀ later ∈ mid ++ pair' :: post, later.2 ≠ pair.2 := fun later hmem heq ↦
    hdisjoint pair.2 (List.mem_map_of_mem hpair) later.2 (List.mem_map_of_mem hmem) heq.symm
  rw [get_foldl_move_eq_none] at hmoved
  · exact hvalue hmoved.symm
  · exact fun later hmem ↦ hne later (List.mem_append_right _ (List.mem_cons_of_mem _ hmem))
  · rw [hlater]
    exact get_move_source _ fun heq ↦
      hne pair' (List.mem_append_right _ (List.mem_cons_self ..)) (heq.symm.trans hlater.symm)

end OrderedDict

import Mathlib.Algebra.BigOperators.Group.List.Basic
import Mathlib.Algebra.GroupWithZero.Nat
import Mathlib.Data.List.Sort
import Ollog.Lib.OrderedDict

/-!
# Tallies

A tally counts items by a key, each item with a weight: `tally key weight items`.  Whatever is asked of
the counts is asked of the items: the counts of the keys with a property add up to the weights of the
items whose keys have it (`total_tally`).  So counting groups again by a coarser key is counting the
items by it, and nothing is lost on the way.
-/

set_option autoImplicit false

namespace Tally

open OrderedDict

variable {ι κ : Type} [DecidableEq κ]

/-- Count so many more of a key. -/
def add (d : OrderedDict κ Nat) (k : κ) (n : Nat) : OrderedDict κ Nat :=
  d.set k ((d.get k).getD 0 + n)

/-- The items by their keys, with the sum of their weights. -/
def tally (key : ι → κ) (weight : ι → Nat) (items : List ι) : OrderedDict κ Nat :=
  items.foldl (fun d item ↦ add d (key item) (weight item)) []

omit [DecidableEq κ] in
/-- The counts of the keys that have a property, added up. -/
def total (P : κ → Bool) (d : List (κ × Nat)) : Nat := ((d.filter fun x ↦ P x.1).map (·.2)).sum

variable {P : κ → Bool} {d : OrderedDict κ Nat} {key : ι → κ} {weight : ι → Nat} {items : List ι}
  {k : κ} {n : Nat}

omit [DecidableEq κ] in
theorem total_cons (x : κ × Nat) (d : List (κ × Nat)) :
    total P (x :: d) = (if P x.1 then x.2 else 0) + total P d := by
  rw [total, List.filter_cons]
  split
  · rw [List.map_cons, List.sum_cons, total]
  · rw [Nat.zero_add, total]

omit [DecidableEq κ] in
theorem total_true (d : List (κ × Nat)) : total (fun _ ↦ true) d = (d.map (·.2)).sum := by
  rw [total, List.filter_true]

omit [DecidableEq κ] in
theorem total_perm {d d' : List (κ × Nat)} (h : d.Perm d') : total P d = total P d' :=
  ((h.filter _).map _).sum_eq

theorem total_add (d : OrderedDict κ Nat) (k : κ) (n : Nat) :
    total P (add d k n) = total P d + if P k then n else 0 := by
  have hset : ∀ m, total P (d.set k ((d.get k).getD 0 + m)) = total P d + if P k then m else 0 := by
    intro m
    induction d with
    | nil =>
      rw [OrderedDict.set, total_cons, OrderedDict.get_nil, Option.getD_none, Nat.zero_add,
        Nat.add_comm]
    | cons x d ih =>
      obtain ⟨j, w⟩ := x
      rw [OrderedDict.set, get_cons]
      by_cases hj : j = k
      · subst hj
        rw [if_pos rfl, if_pos rfl, Option.getD_some, total_cons, total_cons]
        dsimp only
        split <;> omega
      · rw [if_neg hj, if_neg hj, total_cons, total_cons, ih]
        omega
  exact hset n

/-- **What is asked of the counts** is asked of the items. -/
theorem total_tally (P : κ → Bool) (key : ι → κ) (weight : ι → Nat) (items : List ι) :
    total P (tally key weight items) = ((items.filter fun item ↦ P (key item)).map weight).sum := by
  have hfold : ∀ d : OrderedDict κ Nat,
      total P (items.foldl (fun d item ↦ add d (key item) (weight item)) d) =
        total P d + ((items.filter fun item ↦ P (key item)).map weight).sum := by
    induction items with
    | nil => exact fun d ↦ rfl
    | cons item items ih =>
      intro d
      rw [List.foldl_cons, ih, total_add, List.filter_cons]
      split
      · rw [List.map_cons, List.sum_cons]
        omega
      · rw [Nat.add_zero]
  rw [tally, hfold]
  exact Nat.zero_add _

theorem distinct_tally (key : ι → κ) (weight : ι → Nat) (items : List ι) :
    (tally key weight items).Distinct :=
  distinct_nil.foldl fun _ hd item ↦ hd.set (key item) _

/-- The keys of a tally are those of its items. -/
theorem mem_keys_tally : k ∈ (tally key weight items).map (·.1) ↔ ∃ item ∈ items, key item = k := by
  have hkeys : ∀ d : OrderedDict κ Nat, k ∈ d.map (·.1) ↔ (OrderedDict.get d k).isSome = true := by
    intro d
    rw [← Option.ne_none_iff_isSome, ne_eq, get_eq_none_iff, List.mem_map]
    push Not
    rfl
  have hfold : ∀ d : OrderedDict κ Nat,
      (OrderedDict.get (items.foldl (fun d item ↦ add d (key item) (weight item)) d) k).isSome =
        true ↔ (∃ item ∈ items, key item = k) ∨ (OrderedDict.get d k).isSome = true := by
    induction items with
    | nil => simp
    | cons item items ih =>
      intro d
      rw [List.foldl_cons, ih, add, get_set]
      by_cases hk : k = key item
      · simp [hk]
      · simp [hk, Ne.symm hk]
  rw [hkeys, tally, hfold]
  simp

omit [DecidableEq κ] in
/-- A key that comes once has its count. -/
theorem total_eq_of_mem [DecidableEq κ] (hd : d.Distinct) (h : (k, n) ∈ d) :
    total (fun j ↦ decide (j = k)) d = n := by
  induction d with
  | nil => exact absurd h List.not_mem_nil
  | cons x d ih =>
    obtain ⟨hhead, htail⟩ := List.pairwise_cons.1 hd
    rw [total_cons]
    rcases List.mem_cons.1 h with rfl | h
    · have hnone : total (fun j ↦ decide (j = k)) d = 0 := by
        rw [total, List.filter_eq_nil_iff.2]
        · rfl
        · exact fun y hy ↦ by simpa using (hhead y hy).symm
      rw [hnone, if_pos (by simp)]
      rfl
    · have hne : x.1 ≠ k := hhead _ h
      rw [if_neg (by simpa using hne), Nat.zero_add, ih htail h]

end Tally

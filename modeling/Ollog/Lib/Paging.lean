import Mathlib.Data.List.Basic
import Mathlib.Data.List.Perm.Basic
import Mathlib.Data.Nat.Basic

/-!
# Paging through a sorted list

A listing is read in pages, each a piece of the whole list in an order that is computed anew for
each page.  A comparison that lets different elements tie leaves more than one order to choose from,
so an element may be on two pages and another one on none.

A boundary between two pages is harmless if the elements on either side of it do not tie: then it
cuts every order at the same place (`filter_eq_take`).  `PagesFit` says so of every boundary, and it
is what it takes for the pages to be a partition of the list, whichever order is chosen for each
(`pages_perm`, `exists_on_two_pages`).
-/

set_option autoImplicit false

namespace Paging

variable {α : Type} {le : α → α → Bool} {xs ys front back : List α} {x y : α} {size n k : Nat}

/-- A comparison of sort keys. -/
structure TotalPreorder (le : α → α → Bool) : Prop where
  trans : ∀ x y z, le x y = true → le y z = true → le x z = true
  total : ∀ x y, le x y = true ∨ le y x = true

theorem TotalPreorder.refl (h : TotalPreorder le) (x : α) : le x x = true := by
  obtain hx | hx := h.total x x
  · exact hx
  · exact hx

/-- A list in one of the orders a sort may choose. -/
structure Arranges (le : α → α → Bool) (ys xs : List α) : Prop where
  perm : ys.Perm xs
  pairwise : ys.Pairwise fun x y ↦ le x y = true

/-- One page, counted from zero. -/
def page (size k : Nat) (xs : List α) : List α := (xs.drop (k * size)).take size

/-- How many pages there are. -/
def pageCount (size total : Nat) : Nat := (total + size - 1) / size

/-- How many elements come before an element in every order. -/
def before (le : α → α → Bool) (xs : List α) (x : α) : Nat := xs.countP fun y ↦ !le x y

/-- How many elements come before an element in some order, or are that element. -/
def upTo (le : α → α → Bool) (xs : List α) (x : α) : Nat := xs.countP fun y ↦ le y x

/-- No boundary between pages falls between two elements that tie. -/
def PagesFit (le : α → α → Bool) (size : Nat) (xs : List α) : Prop :=
  ∀ x ∈ xs, ∀ k, ¬ (before le xs x < k * size ∧ k * size < upTo le xs x)

theorem Arranges.before_eq (h : Arranges le ys xs) (x : α) : before le ys x = before le xs x :=
  h.perm.countP_eq _

theorem Arranges.upTo_eq (h : Arranges le ys xs) (x : α) : upTo le ys x = upTo le xs x :=
  h.perm.countP_eq _

theorem arranges_mergeSort (hle : TotalPreorder le) (xs : List α) :
    Arranges le (xs.mergeSort le) xs := by
  refine ⟨List.mergeSort_perm xs le, List.pairwise_mergeSort hle.trans (fun x y ↦ ?_) xs⟩
  rw [Bool.or_eq_true]
  exact hle.total x y

/-! ## Where an element can be -/

theorem pairwise_split (h : (front ++ x :: back).Pairwise fun x y ↦ le x y = true) :
    (∀ y ∈ front, le y x = true) ∧ ∀ y ∈ back, le x y = true := by
  rw [List.pairwise_append, List.pairwise_cons] at h
  exact ⟨fun y hy ↦ h.2.2 y hy x (List.mem_cons_self ..), h.2.1.1⟩

theorem countP_split (p : α → Bool) : (front ++ x :: back).countP p =
    front.countP p + (back.countP p + if p x = true then 1 else 0) := by
  rw [List.countP_append, List.countP_cons]

/-- An element is behind those that come before it. -/
theorem before_le_length (hle : TotalPreorder le)
    (h : (front ++ x :: back).Pairwise fun x y ↦ le x y = true) :
    before le (front ++ x :: back) x ≤ front.length := by
  have hback : back.countP (fun y ↦ !le x y) = 0 := by
    rw [List.countP_eq_zero]
    intro y hy
    rw [(pairwise_split h).2 y hy]
    decide
  rw [before, countP_split, hback, hle.refl]
  exact List.countP_le_length

/-- An element is in front of those that come after it. -/
theorem length_lt_upTo (hle : TotalPreorder le)
    (h : (front ++ x :: back).Pairwise fun x y ↦ le x y = true) :
    front.length < upTo le (front ++ x :: back) x := by
  have hfront : front.countP (fun y ↦ le y x) = front.length :=
    List.countP_eq_length.2 (pairwise_split h).1
  rw [upTo, countP_split, hfront, hle.refl, if_pos rfl]
  omega

/-- Whoever is in a place that an element could have ties with it. -/
theorem ties_of_between (hle : TotalPreorder le)
    (h : (front ++ y :: back).Pairwise fun x y ↦ le x y = true)
    (hbefore : before le (front ++ y :: back) x ≤ front.length)
    (hupTo : front.length < upTo le (front ++ y :: back) x) :
    le x y = true ∧ le y x = true := by
  obtain ⟨hfront, hback⟩ := pairwise_split h
  constructor
  · by_contra hno
    have hall : front.countP (fun z ↦ !le x z) = front.length := by
      refine List.countP_eq_length.2 fun z hz ↦ ?_
      rw [Bool.not_eq_true']
      exact Bool.eq_false_iff.2 fun hxz ↦ hno (hle.trans x z y hxz (hfront z hz))
    rw [before, countP_split, hall, Bool.eq_false_iff.2 hno, Bool.not_false, if_pos rfl] at hbefore
    omega
  · by_contra hno
    have hnone : back.countP (fun z ↦ le z x) = 0 := by
      refine List.countP_eq_zero.2 fun z hz hzx ↦ ?_
      exact hno (hle.trans y z x (hback z hz) hzx)
    rw [upTo, countP_split, hnone, if_neg hno] at hupTo
    have := List.countP_le_length (p := fun z ↦ le z x) (l := front)
    omega

/-! ## Boundaries that every order has in the same place -/

/-- **A boundary that fits** cuts every order at the same elements. -/
theorem filter_eq_take (hle : TotalPreorder le) (hys : Arranges le ys xs)
    (hfit : PagesFit le size xs) :
    ys.filter (fun x ↦ decide (before le xs x < k * size)) = ys.take (k * size) := by
  have hplace : ∀ front x back, ys = front ++ x :: back →
      (before le xs x < k * size ↔ front.length < k * size) := by
    rintro front x back rfl
    have hpairwise := hys.pairwise
    have hbefore := before_le_length hle hpairwise
    have hupTo := length_lt_upTo hle hpairwise
    rw [hys.before_eq] at hbefore
    rw [hys.upTo_eq] at hupTo
    have hmem : x ∈ xs := hys.perm.mem_iff.1 (by simp)
    have := hfit x hmem k
    omega
  have htake : ∀ x ∈ ys.take (k * size), decide (before le xs x < k * size) = true := by
    intro x hx
    obtain ⟨front, back, heq⟩ := List.append_of_mem hx
    refine decide_eq_true ((hplace front x (back ++ ys.drop (k * size)) ?_).2 ?_)
    · rw [← List.cons_append, ← List.append_assoc, ← heq, List.take_append_drop]
    · have hlen := congrArg List.length heq
      rw [List.length_take, List.length_append, List.length_cons] at hlen
      omega
  have hdrop : ∀ x ∈ ys.drop (k * size), ¬ decide (before le xs x < k * size) = true := by
    intro x hx
    obtain ⟨front, back, heq⟩ := List.append_of_mem hx
    rw [decide_eq_true_iff, hplace (ys.take (k * size) ++ front) x back]
    · have hlen := congrArg List.length heq
      rw [List.length_drop, List.length_append, List.length_cons] at hlen
      rw [List.length_append, List.length_take]
      omega
    · rw [List.append_assoc, ← heq, List.take_append_drop]
  conv_lhs => rw [← List.take_append_drop (k * size) ys]
  rw [List.filter_append, List.filter_eq_self.2 htake, List.filter_eq_nil_iff.2 hdrop,
    List.append_nil]

/-- The pages up to one, in whatever order each is cut from. -/
theorem pages_perm_filter (hle : TotalPreorder le) (hfit : PagesFit le size xs)
    {orders : Nat → List α} (h : ∀ k, Arranges le (orders k) xs) (k : Nat) :
    ((List.range k).flatMap fun k ↦ page size k (orders k)).Perm
      (xs.filter fun x ↦ decide (before le xs x < k * size)) := by
  induction k with
  | zero =>
    rw [Nat.zero_mul, List.range_zero, List.flatMap_nil, List.filter_eq_nil_iff.2 (by simp)]
  | succ k ih =>
    have hperm := (h k).perm.filter fun x ↦ decide (before le xs x < k * size)
    have hperm' := (h k).perm.filter fun x ↦ decide (before le xs x < (k + 1) * size)
    rw [filter_eq_take hle (h k) hfit] at hperm hperm'
    rw [List.range_succ, List.flatMap_append, List.flatMap_singleton]
    refine ((ih.trans hperm.symm).append_right _).trans ?_
    rw [page, ← List.take_add, ← Nat.succ_mul]
    exact hperm'

theorem length_le_pageCount_mul (hsize : 0 < size) (n : Nat) : n ≤ pageCount size n * size := by
  have hmod := Nat.mod_lt (n + size - 1) hsize
  have hdiv := Nat.div_add_mod (n + size - 1) size
  rw [pageCount, Nat.mul_comm]
  omega

theorem lt_pageCount (hsize : 0 < size) (h : k * size < n) : k < pageCount size n := by
  by_contra hle
  have hmul := Nat.mul_le_mul_right size (Nat.not_lt.1 hle)
  have := length_le_pageCount_mul hsize n
  omega

/-- **Pages that fit** are a partition, whatever order each of them is cut from. -/
theorem pages_perm (hle : TotalPreorder le) (hsize : 0 < size) (hfit : PagesFit le size xs)
    {orders : Nat → List α} (h : ∀ k, Arranges le (orders k) xs) :
    ((List.range (pageCount size xs.length)).flatMap fun k ↦ page size k (orders k)).Perm xs := by
  refine (pages_perm_filter hle hfit h _).trans ?_
  rw [List.filter_eq_self.2]
  intro x hx
  rw [decide_eq_true_iff]
  obtain ⟨front, back, heq⟩ := List.append_of_mem ((h 0).perm.mem_iff.2 hx)
  have hbefore := before_le_length hle (heq ▸ (h 0).pairwise)
  rw [← heq, (h 0).before_eq] at hbefore
  have hlen := (h 0).perm.length_eq
  rw [heq, List.length_append, List.length_cons] at hlen
  have := length_le_pageCount_mul hsize xs.length
  omega

/-! ## A boundary that does not fit -/

theorem mem_page_of_getElem? {xs : List α} {x : α} {place : Nat}
    (hx : xs[place]? = some x) (hle : k * size ≤ place) (hlt : place < (k + 1) * size) :
    x ∈ page size k xs := by
  refine List.mem_of_getElem? (i := place - k * size) ?_
  rw [Nat.succ_mul] at hlt
  rw [page, List.getElem?_take_of_lt (by omega), List.getElem?_drop,
    Nat.add_sub_cancel' hle, hx]

/-- Two neighbours that tie may change places. -/
theorem Arranges.swap {z : α} (h : Arranges le (front ++ x :: z :: back) xs) (hzx : le z x = true) :
    Arranges le (front ++ z :: x :: back) xs := by
  refine ⟨((List.Perm.swap x z back).append_left front).trans h.perm, ?_⟩
  have hpairwise := h.pairwise
  simp only [List.pairwise_append, List.pairwise_cons, List.forall_mem_cons] at hpairwise ⊢
  obtain ⟨hfront, ⟨⟨-, hx⟩, hz, hback⟩, hcross⟩ := hpairwise
  exact ⟨hfront, ⟨⟨hzx, hz⟩, hx, hback⟩, fun y hy ↦
    ⟨(hcross y hy).2.1, (hcross y hy).1, (hcross y hy).2.2⟩⟩

/-- **Pages that do not fit**: two orders put an element on one page and on the next. -/
theorem exists_on_two_pages (hle : TotalPreorder le) (hfit : ¬ PagesFit le size xs) :
    ∃ ys ys' k x, Arranges le ys xs ∧ Arranges le ys' xs ∧ (k + 1) * size < xs.length ∧
      x ∈ page size k ys ∧ x ∈ page size (k + 1) ys' := by
  rw [PagesFit] at hfit
  push Not at hfit
  obtain ⟨x, -, m, hbefore, hupTo⟩ := hfit
  obtain ⟨k, rfl⟩ : ∃ k, m = k + 1 := Nat.exists_eq_succ_of_ne_zero (by rintro rfl; omega)
  have hys := arranges_mergeSort hle xs
  have hlength : upTo le xs x ≤ xs.length := List.countP_le_length
  -- The elements on either side of the boundary.
  obtain ⟨front, y, z, back, hsplit, hfront⟩ : ∃ front y z back,
      xs.mergeSort le = front ++ y :: z :: back ∧ front.length + 1 = (k + 1) * size := by
    have hlen := hys.perm.length_eq
    match hdrop : (xs.mergeSort le).drop ((k + 1) * size - 1) with
    | [] =>
      have := congrArg List.length hdrop
      rw [List.length_drop, List.length_nil] at this
      omega
    | [_] =>
      have := congrArg List.length hdrop
      rw [List.length_drop, List.length_singleton] at this
      omega
    | y :: z :: back =>
      refine ⟨(xs.mergeSort le).take ((k + 1) * size - 1), y, z, back, ?_, ?_⟩
      · rw [← hdrop, List.take_append_drop]
      · rw [List.length_take]
        omega
  rw [hsplit] at hys
  have hy := ties_of_between (x := x) hle hys.pairwise (by rw [hys.before_eq]; omega)
    (by rw [hys.upTo_eq]; omega)
  have hassoc : front ++ y :: z :: back = (front ++ [y]) ++ z :: back := List.append_cons ..
  have hz := @ties_of_between _ _ (front ++ [y]) back x z hle
    (hassoc ▸ hys.pairwise)
    (by rw [← hassoc, hys.before_eq, List.length_append, List.length_singleton]; omega)
    (by rw [← hassoc, hys.upTo_eq, List.length_append, List.length_singleton]; omega)
  have hk : (k + 1) * size = k * size + size := Nat.succ_mul k size
  have hk' : (k + 1 + 1) * size = (k + 1) * size + size := Nat.succ_mul (k + 1) size
  have hsize : 0 < size := Nat.pos_of_ne_zero (by rintro rfl; simp at hbefore)
  refine ⟨_, _, k, y, hys, hys.swap (hle.trans z x y hz.2 hy.1), by omega,
    @mem_page_of_getElem? _ _ _ _ _ front.length ?_ (by omega) (by omega),
    @mem_page_of_getElem? _ _ _ _ _ (front.length + 1) ?_ (by omega) (by omega)⟩
  · rw [List.getElem?_append_right (Nat.le_refl _), Nat.sub_self]
    rfl
  · rw [List.getElem?_append_right (by omega : front.length ≤ front.length + 1),
      Nat.add_sub_cancel_left]
    rfl

/-! ## Reading on while the list grows -/

/-- An element is on the page that it has to be on, whatever the order. -/
theorem mem_page (hle : TotalPreorder le) (hys : Arranges le ys xs) (hfit : PagesFit le size xs)
    (hx : x ∈ xs) (hlow : k * size ≤ before le xs x) (hhigh : before le xs x < (k + 1) * size) :
    x ∈ page size k ys := by
  have htake : x ∈ ys.take ((k + 1) * size) := by
    rw [← filter_eq_take hle hys hfit, List.mem_filter]
    exact ⟨hys.perm.mem_iff.2 hx, decide_eq_true hhigh⟩
  have hnot : x ∉ ys.take (k * size) := by
    rw [← filter_eq_take hle hys hfit, List.mem_filter, decide_eq_true_iff]
    exact fun h ↦ Nat.not_lt.2 hlow h.2
  rw [Nat.succ_mul, List.take_add, List.mem_append] at htake
  exact htake.resolve_left hnot

/-- An element does not come before itself. -/
theorem before_lt_length (hle : TotalPreorder le) (hx : x ∈ xs) : before le xs x < xs.length := by
  refine Nat.lt_of_le_of_ne List.countP_le_length fun heq ↦ ?_
  have hself := List.countP_eq_length.1 heq x hx
  simp [hle.refl x] at hself

/-- **Reading on** while the list grows misses nothing that was in it at the start.  What is added
can only move an element to a later page, so it does not get past the reader. -/
theorem exists_page_of_grows (hle : TotalPreorder le) {xs orders : Nat → List α}
    (hgrows : ∀ k, (xs k).Sublist (xs (k + 1))) (horders : ∀ k, Arranges le (orders k) (xs k))
    (hfit : ∀ k < n, PagesFit le size (xs k)) (hend : (xs n).length ≤ n * size) (hx : x ∈ xs 0) :
    ∃ k < n, x ∈ page size k (orders k) := by
  by_contra hmissed
  have hmem : ∀ k, x ∈ xs k := fun k ↦ by
    induction k with
    | zero => exact hx
    | succ k ih => exact (hgrows k).subset ih
  -- As long as the element has not been on a page, it is behind those that have been read.
  have hbehind : ∀ k ≤ n, k * size ≤ before le (xs k) x := by
    intro k
    induction k with
    | zero => simp
    | succ k ih =>
      intro hk
      have hnot : ¬ before le (xs k) x < (k + 1) * size := fun hlt ↦
        hmissed ⟨k, hk, mem_page hle (horders k) (hfit k hk) (hmem k) (ih (Nat.le_of_lt hk)) hlt⟩
      exact Nat.le_trans (Nat.not_lt.1 hnot) (hgrows k).countP_le
  have hlt := before_lt_length hle (hmem n)
  have hle' := hbehind n (Nat.le_refl n)
  omega

/-- Where no two elements tie, every boundary fits. -/
theorem pagesFit_of_pairwise (hle : TotalPreorder le)
    (h : xs.Pairwise fun x y ↦ ¬ (le x y = true ∧ le y x = true)) : PagesFit le size xs := by
  rintro x hx k ⟨hbefore, hupTo⟩
  obtain ⟨front, back, rfl⟩ := List.append_of_mem hx
  rw [List.pairwise_append, List.pairwise_cons] at h
  obtain ⟨-, ⟨hback, -⟩, hfront⟩ := h
  have hfrontLe : front.countP (fun y ↦ le y x) ≤ front.countP fun y ↦ !le x y :=
    List.countP_mono_left fun y hy hyx ↦ by
      have := hfront y hy x List.mem_cons_self
      simp_all
  have hbackLe : back.countP (fun y ↦ le y x) ≤ back.countP fun y ↦ !le x y :=
    List.countP_mono_left fun y hy hyx ↦ by
      have := hback y hy
      simp_all
  rw [before, countP_split, hle.refl] at hbefore
  rw [upTo, countP_split, hle.refl] at hupTo
  simp only [Bool.not_true, Bool.false_eq_true, if_false, if_true] at hbefore hupTo
  omega

end Paging

import Mathlib.Data.List.Lex
import Mathlib.Data.List.Chain
import Mathlib.Data.List.TakeDrop
import Mathlib.Order.Lattice
import Mathlib.Order.Monotone.Basic

/-!
# Bisection, and ranges seen through a truncation

`bisectRight` is the binary search of Python's `bisect` module: in a sorted list it finds where the
elements up to a bound end (`bisectRight_eq_length`).

The second half is about a list of ranges, one behind the other, of which only a monotone image of the
endpoints is looked at, such as the first letters of a word.  Images of different ranges may meet, but
the last range whose start does not lie behind a point is the only one worth looking at: if it does
not reach the point, none before it does (`getLast?_filter_brackets`).
-/

set_option autoImplicit false

namespace Bisect

variable {α β ι : Type} [LinearOrder α] [LinearOrder β]

/-- The loop of `bisect.bisect_right`. -/
def bisectFrom (xs : List α) (x : α) (lo hi : Nat) : Nat :=
  if lo < hi then
    match xs[(lo + hi) / 2]? with
    | none => lo
    | some y =>
      if x < y then bisectFrom xs x lo ((lo + hi) / 2) else bisectFrom xs x ((lo + hi) / 2 + 1) hi
  else lo
termination_by hi - lo

/-- `bisect.bisect_right`. -/
def bisectRight (xs : List α) (x : α) : Nat := bisectFrom xs x 0 xs.length

/-- The loop ends between the elements up to the bound and those behind it, if it begins around that
place. -/
theorem bisectFrom_eq_length {front back : List α} {x : α} (hfront : ∀ y ∈ front, y ≤ x)
    (hback : ∀ y ∈ back, x < y) {lo hi : Nat} (hlo : lo ≤ front.length) (hhi : front.length ≤ hi)
    (hlength : hi ≤ (front ++ back).length) :
    bisectFrom (front ++ back) x lo hi = front.length := by
  induction hmeasure : hi - lo using Nat.strong_induction_on generalizing lo hi with
  | h n ih =>
    rw [bisectFrom]
    split
    · rename_i hlt
      have hmid : (lo + hi) / 2 < (front ++ back).length := by omega
      rw [List.getElem?_eq_getElem hmid]
      dsimp only
      obtain hin | hout := Nat.lt_or_ge ((lo + hi) / 2) front.length
      · rw [List.getElem_append_left hin, if_neg (not_lt.2 (hfront _ (List.getElem_mem hin)))]
        exact ih _ (by omega) (by omega) hhi hlength rfl
      · rw [List.getElem_append_right hout, if_pos (hback _ (List.getElem_mem _))]
        exact ih _ (by omega) hlo hout (by omega) rfl
    · omega

/-- **Bisection** finds where the elements up to the bound end. -/
theorem bisectRight_eq_length {front back : List α} {x : α} (hfront : ∀ y ∈ front, y ≤ x)
    (hback : ∀ y ∈ back, x < y) : bisectRight (front ++ back) x = front.length :=
  bisectFrom_eq_length hfront hback (Nat.zero_le _)
    (by rw [List.length_append]; exact Nat.le_add_right ..) (Nat.le_refl _)

/-! ## Words and their first letters -/

theorem nil_le (xs : List α) : [] ≤ xs := not_lt.1 (List.not_lt_nil xs)

theorem cons_le_cons_iff {x y : α} {xs ys : List α} :
    x :: xs ≤ y :: ys ↔ x < y ∨ x = y ∧ xs ≤ ys := by
  rw [← not_lt, List.cons_lt_cons_iff, ← not_lt]
  constructor
  · intro h
    rw [not_or] at h
    rcases lt_trichotomy x y with hlt | rfl | hgt
    · exact .inl hlt
    · exact .inr ⟨rfl, fun hlt ↦ h.2 ⟨rfl, hlt⟩⟩
    · exact absurd hgt h.1
  · rintro (hlt | ⟨rfl, hnot⟩) (hgt | ⟨heq, hless⟩)
    · exact lt_asymm hlt hgt
    · exact hlt.ne heq.symm
    · exact lt_irrefl _ hgt
    · exact hnot hless

/-- The first letters of words are in the order of the words. -/
theorem take_mono (n : Nat) : Monotone (List.take n : List α → List α) := by
  induction n with
  | zero => exact fun _ _ _ ↦ nil_le _
  | succ n ih =>
    intro xs ys h
    cases xs with
    | nil => exact nil_le _
    | cons x xs =>
      cases ys with
      | nil => exact absurd h (not_le.2 (List.nil_lt_cons x xs))
      | cons y ys =>
        rw [List.take_succ_cons, List.take_succ_cons]
        rcases cons_le_cons_iff.1 h with hlt | ⟨rfl, hle⟩
        · exact cons_le_cons_iff.2 (.inl hlt)
        · exact cons_le_cons_iff.2 (.inr ⟨rfl, ih hle⟩)

/-- A letter behind all others makes a word greater than every word that begins with it. -/
theorem le_append_singleton_iff {top : α} {xs : List α} (hxs : ∀ x ∈ xs, x < top) (ys : List α) :
    xs ≤ ys ++ [top] ↔ xs.take ys.length ≤ ys := by
  induction ys generalizing xs with
  | nil =>
    rw [List.length_nil, List.take_zero, List.nil_append]
    refine ⟨fun _ ↦ nil_le _, fun _ ↦ ?_⟩
    cases xs with
    | nil => exact nil_le _
    | cons x xs => exact cons_le_cons_iff.2 (.inl (hxs x (List.mem_cons_self ..)))
  | cons y ys ih =>
    cases xs with
    | nil => exact ⟨fun _ ↦ nil_le _, fun _ ↦ nil_le _⟩
    | cons x xs =>
      rw [List.length_cons, List.take_succ_cons, List.cons_append, cons_le_cons_iff,
        cons_le_cons_iff, ih fun x hx ↦ hxs x (List.mem_cons_of_mem _ hx)]

/-! ## Ranges -/

variable {start stop : ι → α} {f : α → β} {p : β} {rows front back : List ι} {r r' : ι}

/-- The images of the endpoints are on either side of a point. -/
def Brackets (start stop : ι → α) (f : α → β) (p : β) (r : ι) : Prop :=
  f (start r) ≤ p ∧ p ≤ f (stop r)

instance (r : ι) : Decidable (Brackets start stop f p r) := inferInstanceAs (Decidable (_ ∧ _))

/-- Ranges that come one behind the other. -/
structure Ordered (start stop : ι → α) (rows : List ι) : Prop where
  bounds : ∀ r ∈ rows, start r ≤ stop r
  behind : rows.Pairwise fun r r' ↦ stop r < start r'

/-- Ranges whose neighbours come one behind the other do so all of them. -/
theorem Ordered.of_isChain (hbounds : ∀ r ∈ rows, start r ≤ stop r)
    (hchain : rows.IsChain fun r r' ↦ stop r < start r' ∧ start r' ≤ stop r') :
    Ordered start stop rows := by
  have htrans : IsTrans ι fun r r' ↦ stop r < start r' ∧ start r' ≤ stop r' :=
    ⟨fun _ _ _ h h' ↦ ⟨(h.1.trans_le h.2).trans h'.1, h'.2⟩⟩
  exact ⟨hbounds, (List.isChain_iff_pairwise.1 hchain).imp fun h ↦ h.1⟩

/-- Starts are in order. -/
theorem Ordered.pairwise_start (h : Ordered start stop rows) :
    rows.Pairwise fun r r' ↦ start r < start r' :=
  h.behind.imp_of_mem fun hr _ hlt ↦ (h.bounds _ hr).trans_lt hlt

/-- Those that start up to a point come first. -/
theorem Ordered.exists_split (h : Ordered start stop rows) (hf : Monotone f) (p : β) :
    ∃ front back, rows = front ++ back ∧ (∀ r ∈ front, f (start r) ≤ p) ∧
      ∀ r ∈ back, p < f (start r) := by
  have hstart := h.pairwise_start
  clear h
  induction rows with
  | nil => exact ⟨[], [], rfl, by simp, by simp⟩
  | cons r rows ih =>
    obtain ⟨hr, hrows⟩ := List.pairwise_cons.1 hstart
    by_cases hle : f (start r) ≤ p
    · obtain ⟨front, back, rfl, hfront, hback⟩ := ih hrows
      exact ⟨r :: front, back, rfl, List.forall_mem_cons.2 ⟨hle, hfront⟩, hback⟩
    · refine ⟨[], r :: rows, rfl, by simp, List.forall_mem_cons.2 ⟨not_le.1 hle, fun r' hr' ↦ ?_⟩⟩
      exact (not_le.1 hle).trans_le (hf (hr r' hr').le)

/-- **The last range that starts up to a point** is the last one that brackets it, or none does. -/
theorem getLast?_filter_brackets (hf : Monotone f) (h : Ordered start stop (front ++ [r] ++ back))
    (hr : f (start r) ≤ p) (hback : ∀ r ∈ back, p < f (start r)) :
    ((front ++ [r] ++ back).filter (Brackets start stop f p ·)).getLast? =
      if p ≤ f (stop r) then some r else none := by
  have hnone : back.filter (Brackets start stop f p ·) = [] :=
    List.filter_eq_nil_iff.2 fun r' hr' hbrackets ↦
      (hback r' hr').not_ge (of_decide_eq_true hbrackets).1
  rw [List.filter_append, hnone, List.append_nil, List.filter_append]
  split
  · rename_i hle
    have hself : [r].filter (Brackets start stop f p ·) = [r] :=
      List.filter_eq_self.2 fun r' hr' ↦ decide_eq_true (List.mem_singleton.1 hr' ▸ ⟨hr, hle⟩)
    rw [hself, List.getLast?_append]
    rfl
  · rename_i hno
    have hself : [r].filter (Brackets start stop f p ·) = [] :=
      List.filter_eq_nil_iff.2 fun r' hr' hbrackets ↦
        hno (List.mem_singleton.1 hr' ▸ (of_decide_eq_true hbrackets).2)
    rw [hself, List.append_nil, List.getLast?_eq_none_iff, List.filter_eq_nil_iff]
    intro r' hr' hbrackets
    have hlt : stop r' < start r :=
      (List.pairwise_append.1 (List.pairwise_append.1 h.behind).1).2.2 r' hr' r
        (List.mem_singleton_self r)
    exact hno ((of_decide_eq_true hbrackets).2.trans ((hf hlt.le).trans
      (hf (h.bounds r (by simp)))))

/-- Two ranges that bracket a point meet there, in the truncation. -/
theorem eq_of_brackets (hf : Monotone f) (hbehind : stop r < start r')
    (h : Brackets start stop f p r) (h' : Brackets start stop f p r') :
    f (stop r) = p ∧ f (start r') = p :=
  ⟨le_antisymm ((hf hbehind.le).trans h'.1) h.2, le_antisymm h'.1 (h.2.trans (hf hbehind.le))⟩

/-- Ranges that bracket a point agree, if neighbours agree that meet there. -/
theorem Ordered.eq_of_neighbours {γ : Type} {g : ι → γ} (hf : Monotone f)
    (h : Ordered start stop rows)
    (hnext : rows.IsChain fun r r' ↦ f (stop r) = p → f (start r') = p → g r = g r') :
    rows.Pairwise fun r r' ↦ Brackets start stop f p r → Brackets start stop f p r' →
      g r = g r' := by
  obtain ⟨hbounds, hbehind⟩ := h
  induction rows with
  | nil => exact List.Pairwise.nil
  | cons r rows ih =>
    obtain ⟨hr, hrows⟩ := List.pairwise_cons.1 hbehind
    have htail := ih hnext.tail (fun r' hr' ↦ hbounds r' (List.mem_cons_of_mem _ hr')) hrows
    refine List.pairwise_cons.2 ⟨fun r' hr' hbrackets hbrackets' ↦ ?_, htail⟩
    cases rows with
    | nil => exact absurd hr' List.not_mem_nil
    | cons next rows =>
      -- The next range lies between the two.
      have hlt : stop r < start next := hr next (List.mem_cons_self ..)
      have hle : start next ≤ start r' := by
        rcases List.mem_cons.1 hr' with rfl | hr'
        · exact le_rfl
        · exact (hbounds next (by simp)).trans ((List.pairwise_cons.1 hrows).1 r' hr').le
      have hbetween : Brackets start stop f p next :=
        ⟨(hf hle).trans hbrackets'.1,
          (hbrackets.2.trans (hf hlt.le)).trans (hf (hbounds next (by simp)))⟩
      obtain ⟨hstop, hstart⟩ := eq_of_brackets hf hlt hbrackets hbetween
      have hhead : g r = g next := (List.isChain_cons_cons.1 hnext).1 hstop hstart
      rcases List.mem_cons.1 hr' with rfl | hr'
      · exact hhead
      · exact hhead.trans ((List.pairwise_cons.1 htail).1 r' hr' hbetween hbrackets')

end Bisect

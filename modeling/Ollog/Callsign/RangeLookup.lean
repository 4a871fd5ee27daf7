import Mathlib.Data.Char
import Ollog.Lib.Bisect

/-!
# Looking a prefix up in the table of allocated series

The ITU allocates series of call signs to countries, each a range of three characters such as
`DAA - DRZ`.  `_range_lookup` finds the range that a prefix of a callsign belongs to: it bisects the
starts for the last range that could, and compares endpoints that are cut to the length of the prefix.
It looks at one range only before it gives up, and that is enough, for any table of ranges that do not
overlap: `rangeLookup_eq_linearLookup`.
-/

set_option autoImplicit false

namespace Ollog

open Bisect

/-! ## Tables of ranges -/

/-- A row of `_RANGES`. -/
structure SeriesRange where
  start : String
  stop : String
  iso : Option String
  deriving DecidableEq, Repr

/-- `[A-Z0-9]`. -/
def isCallChar (c : Char) : Bool := c.isUpper || c.isDigit

/-- Three characters that may be the beginning of a callsign. -/
def IsSeries (s : String) : Prop := s.toList.length = 3 ∧ s.toList.all isCallChar = true

instance (s : String) : Decidable (IsSeries s) := inferInstanceAs (Decidable (_ ∧ _))

/-- A table of ranges, sorted by start and without overlaps. -/
structure RangeTable where
  rows : List SeriesRange
  series : ∀ r ∈ rows, IsSeries r.start ∧ IsSeries r.stop
  bounds : ∀ r ∈ rows, r.start.toList ≤ r.stop.toList
  sorted : rows.Pairwise fun r r' ↦ r.start.toList ≤ r'.start.toList
  disjoint : rows.Pairwise fun r r' ↦
    r.stop.toList < r'.start.toList ∨ r'.stop.toList < r.start.toList

/-- The endpoints of a range, cut to the length of a candidate, bracket it. -/
def Compatible (candidate : List Char) (r : SeriesRange) : Prop :=
  Brackets (fun r ↦ r.start.toList) (fun r ↦ r.stop.toList) (List.take candidate.length) candidate r

instance (candidate : List Char) (r : SeriesRange) : Decidable (Compatible candidate r) :=
  inferInstanceAs (Decidable (Brackets ..))

theorem compatible_iff {candidate : List Char} {r : SeriesRange} : Compatible candidate r ↔
    r.start.toList.take candidate.length ≤ candidate ∧
      candidate ≤ r.stop.toList.take candidate.length := Iff.rfl

/-! ## The lookup -/

/-- The loop of `_range_lookup`, from the row before a place downwards; `none` is `_NOTFOUND`. -/
def scanDown (rows : List SeriesRange) (candidate : List Char) : Nat → Option (Option String)
  | 0 => none
  | idx + 1 =>
    match rows[idx]? with
    | none => none
    | some r =>
      let ts := r.start.toList.take candidate.length
      let te := r.stop.toList.take candidate.length
      if ts ≤ candidate ∧ candidate ≤ te then some r.iso
      else if ts < candidate then none
      else scanDown rows candidate idx

/-- `_range_lookup`. -/
def rangeLookup (rows : List SeriesRange) (candidate : List Char) : Option (Option String) :=
  scanDown rows candidate (bisectRight (rows.map fun r ↦ r.start.toList) (candidate ++ ['~']))

/-- What the lookup is for: the last range that is compatible with the candidate. -/
def linearLookup (rows : List SeriesRange) (candidate : List Char) : Option (Option String) :=
  (rows.filter (Compatible candidate ·)).getLast?.map (·.iso)

variable {rows : List SeriesRange} {candidate : List Char} {r r' : SeriesRange}

theorem lt_tilde_of_isCallChar {c : Char} (h : isCallChar c = true) : c < '~' := by
  have htilde : '~'.toNat = 126 := rfl
  have hZ : 'Z'.toNat = 90 := rfl
  have h9 : '9'.toNat = 57 := rfl
  rw [isCallChar, Bool.or_eq_true] at h
  refine Char.lt_def.2 (UInt32.lt_iff_toNat_lt.2 ?_)
  show c.toNat < 126
  rcases h with h | h
  · unfold Char.isUpper at h
    simp only [decide_eq_true_eq, UInt32.le_iff_toNat_le] at h
    exact Nat.lt_of_le_of_lt h.2 (by decide)
  · simp only [Char.isDigit, Bool.and_eq_true, decide_eq_true_eq, UInt32.le_iff_toNat_le] at h
    exact Nat.lt_of_le_of_lt h.2 (by decide)

/-- The ranges of a table come one behind the other. -/
theorem RangeTable.ordered (table : RangeTable) :
    Ordered (fun r : SeriesRange ↦ r.start.toList) (fun r ↦ r.stop.toList) table.rows where
  bounds := table.bounds
  behind := (table.sorted.and table.disjoint).imp_of_mem fun {_ r'} _ hr' ⟨hle, hdisjoint⟩ ↦
    hdisjoint.resolve_right fun hlt ↦ ((table.bounds r' hr').trans_lt hlt).not_ge hle

/-- A start lies before the bound of the bisection if, cut, it does not lie behind the candidate. -/
theorem RangeTable.le_bound_iff (table : RangeTable) (hr : r ∈ table.rows) (candidate : List Char) :
    r.start.toList ≤ candidate ++ ['~'] ↔ r.start.toList.take candidate.length ≤ candidate :=
  le_append_singleton_iff
    (fun c hc ↦ lt_tilde_of_isCallChar (List.all_eq_true.1 (table.series r hr).1.2 c hc)) candidate

/-- **The bisecting lookup is the linear one**: the early `break` never skips a range. -/
theorem rangeLookup_eq_linearLookup (table : RangeTable) (candidate : List Char) :
    rangeLookup table.rows candidate = linearLookup table.rows candidate := by
  have hordered := table.ordered
  obtain ⟨front, back, hsplit, hfront, hback⟩ :=
    hordered.exists_split (take_mono candidate.length) candidate
  -- Where the bisection ends.
  have hbisect : bisectRight (table.rows.map fun r ↦ r.start.toList) (candidate ++ ['~']) =
      front.length := by
    have hfront' : ∀ xs ∈ front.map fun r ↦ r.start.toList, xs ≤ candidate ++ ['~'] := by
      intro xs hxs
      obtain ⟨r, hr, rfl⟩ := List.mem_map.1 hxs
      have hmem : r ∈ table.rows := hsplit ▸ List.mem_append_left _ hr
      exact (table.le_bound_iff hmem candidate).2 (hfront r hr)
    have hback' : ∀ xs ∈ back.map fun r ↦ r.start.toList, candidate ++ ['~'] < xs := by
      intro xs hxs
      obtain ⟨r, hr, rfl⟩ := List.mem_map.1 hxs
      have hmem : r ∈ table.rows := hsplit ▸ List.mem_append_right _ hr
      exact not_le.1 fun hle ↦
        (hback r hr).not_ge ((table.le_bound_iff hmem candidate).1 hle)
    rw [hsplit, List.map_append, bisectRight_eq_length hfront' hback', List.length_map]
  rw [rangeLookup, hbisect, linearLookup]
  obtain rfl | ⟨front, r, rfl⟩ := List.eq_nil_or_concat' front
  · have hnone : table.rows.filter (Compatible candidate ·) = [] := by
      rw [hsplit, List.nil_append, List.filter_eq_nil_iff]
      exact fun r hr hcompatible ↦ (hback r hr).not_ge (of_decide_eq_true hcompatible).1
    rw [hnone]
    rfl
  · have hr := hfront r (List.mem_append_right _ (List.mem_singleton_self r))
    have hlast : ((front ++ [r] ++ back).filter (Compatible candidate ·)).getLast? =
        if candidate ≤ r.stop.toList.take candidate.length then some r else none :=
      getLast?_filter_brackets (take_mono candidate.length) (hsplit ▸ hordered) hr hback
    have hget : table.rows[front.length]? = some r := by
      rw [hsplit, List.append_assoc, List.getElem?_append_right (Nat.le_refl _), Nat.sub_self]
      rfl
    rw [hsplit] at hget ⊢
    rw [List.length_append, List.length_singleton, scanDown, hget]
    refine Eq.trans ?_ (congrArg (Option.map (·.iso)) hlast).symm
    dsimp only
    by_cases hle : candidate ≤ r.stop.toList.take candidate.length
    · rw [if_pos ⟨hr, hle⟩, if_pos hle]
      rfl
    · -- The range ends before the candidate, and so do those before it.
      have hstop : r.start.toList.take candidate.length ≤ r.stop.toList.take candidate.length :=
        take_mono _ (table.bounds r (hsplit ▸ by simp))
      rw [if_neg fun hboth ↦ hle hboth.2, if_pos (hstop.trans_lt (not_le.1 hle)), if_neg hle]
      rfl

/-- If there is a compatible range, the greatest one is found. -/
theorem exists_rangeLookup (table : RangeTable) (hr : r ∈ table.rows)
    (hcompatible : Compatible candidate r) :
    ∃ last ∈ table.rows, Compatible candidate last ∧
      (∀ r' ∈ table.rows, Compatible candidate r' → r' = last ∨ r'.start.toList < last.start.toList) ∧
      rangeLookup table.rows candidate = some last.iso := by
  have hmem : r ∈ table.rows.filter (Compatible candidate ·) :=
    List.mem_filter.2 ⟨hr, decide_eq_true hcompatible⟩
  obtain ⟨last, hlast⟩ := Option.isSome_iff_exists.1
    (List.getLast?_isSome.2 (List.ne_nil_of_mem hmem))
  obtain ⟨front, hfront⟩ := List.getLast?_eq_some_iff.1 hlast
  have hmem' := List.mem_filter.1 (List.mem_of_getLast? hlast)
  have hpairwise := table.ordered.pairwise_start.filter (Compatible candidate ·)
  rw [hfront, List.pairwise_append] at hpairwise
  refine ⟨last, hmem'.1, of_decide_eq_true hmem'.2, fun r' hr' hcompatible' ↦ ?_, ?_⟩
  · have hin : r' ∈ front ++ [last] :=
      hfront ▸ List.mem_filter.2 ⟨hr', decide_eq_true hcompatible'⟩
    rw [List.mem_append, List.mem_singleton] at hin
    exact hin.symm.imp_right fun hin ↦ hpairwise.2.2 r' hin last (List.mem_singleton_self last)
  · rw [rangeLookup_eq_linearLookup, linearLookup, hlast]
    rfl

/-- Without a compatible range nothing is found. -/
theorem rangeLookup_eq_none_iff (table : RangeTable) (candidate : List Char) :
    rangeLookup table.rows candidate = none ↔ ∀ r ∈ table.rows, ¬ Compatible candidate r := by
  rw [rangeLookup_eq_linearLookup, linearLookup, Option.map_eq_none_iff, List.getLast?_eq_none_iff,
    List.filter_eq_nil_iff]
  exact forall₂_congr fun r _ ↦ by rw [decide_eq_true_iff]

/-- What is found is the code of a range. -/
theorem exists_of_rangeLookup (table : RangeTable) {iso : Option String}
    (h : rangeLookup table.rows candidate = some iso) : ∃ r ∈ table.rows, r.iso = iso := by
  rw [rangeLookup_eq_linearLookup, linearLookup, Option.map_eq_some_iff] at h
  obtain ⟨r, hr, hiso⟩ := h
  exact ⟨r, (List.mem_filter.1 (List.mem_of_getLast? hr)).1, hiso⟩

/-- **The lookup finds the greatest range that is compatible with the candidate**, and none exactly
if there is none. -/
theorem rangeLookup_greatest (table : RangeTable) (candidate : List Char) :
    (∀ r ∈ table.rows, Compatible candidate r →
      (∀ r' ∈ table.rows, Compatible candidate r' → r'.start.toList ≤ r.start.toList) →
      rangeLookup table.rows candidate = some r.iso) ∧
    (rangeLookup table.rows candidate = none ↔ ∀ r ∈ table.rows, ¬ Compatible candidate r) := by
  refine ⟨fun r hr hcompatible hgreatest ↦ ?_, rangeLookup_eq_none_iff table candidate⟩
  obtain ⟨last, hlast, hcompatible', hbefore, hlookup⟩ := exists_rangeLookup table hr hcompatible
  rcases hbefore r hr hcompatible with rfl | hlt
  · exact hlookup
  · exact absurd (hgreatest last hlast hcompatible') hlt.not_ge

end Ollog

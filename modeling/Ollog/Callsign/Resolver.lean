import Mathlib.Data.List.Dedup
import Mathlib.Data.List.Sort
import Ollog.Callsign.Shared
import Ollog.Python.Text

/-!
# From a callsign to a country

`lookup_prefix` takes the operational suffixes off a callsign, forms candidate prefixes from its first
characters, and looks the candidates up, the longest first.

Two things go wrong.  The lookup compares endpoints that are cut to the length of the candidate, and
takes the last range that fits; where a candidate is a beginning that countries share, it guesses the
last of them (`neverGuesses_iff`).  And the prefix in front of a callsign is held to the same shape as
a callsign, which needs a digit, so that `F/G3YWX` is nowhere while `EA3/G3YWX` is in Spain
(`lookupPrefix_portable_iff`).
-/

set_option autoImplicit false

namespace Ollog

/-- What `str.isdigit` says of one character. -/
class UnicodeDigits where
  isDigit : Char → Bool
  /-- On ASCII the digits are `0`-`9`. -/
  isDigit_ascii : ∀ c : Char, c.toNat < 128 → isDigit c = c.isDigit

/-- The database that knows nothing outside ASCII. -/
@[reducible] def UnicodeDigits.ascii : UnicodeDigits := ⟨Char.isDigit, fun _ _ ↦ rfl⟩

/-! ## Candidates -/

/-- `_UNRESOLVABLE_SUFFIXES`. -/
def unresolvableSuffixes : List (List Char) := [['M', 'M'], ['A', 'M']]

/-- The match of `^([0-9][A-Z]{1,2})`. -/
def digitSeries : List Char → Option (List Char)
  | [] => none
  | c :: cs =>
    let letters := (cs.take 2).takeWhile Char.isUpper
    if c.isDigit && !letters.isEmpty then some (c :: letters) else none

/-- The candidate prefixes of a callsign whose first digit stands at a place. -/
def candidates (base : List Char) (digitPos : Nat) : List (List Char) :=
  if digitPos = 0 then
    let found := (digitSeries base).toList
    if base.take 1 ∈ found then found else found ++ [base.take 1]
  else
    let found := if (base.take digitPos).length ≤ 3 then [base.take digitPos] else []
    let withDigit := base.take (digitPos + 1)
    if withDigit.length ≤ 3 ∧ withDigit ∉ found then withDigit :: found else found

/-- `sorted(set(candidates), key=len, reverse=True)`; no two candidates have the same length, so the
order of the set does not matter. -/
def longestFirst (found : List (List Char)) : List (List Char) :=
  found.dedup.insertionSort fun p q ↦ q.length ≤ p.length

variable {base p q : List Char} {digitPos : Nat}

theorem length_digitSeries (h : digitSeries base = some p) : 1 < p.length ∧ p.length ≤ 3 := by
  cases base with
  | nil => cases h
  | cons c cs =>
    rw [digitSeries, Option.ite_none_right_eq_some, Bool.and_eq_true, Bool.not_eq_true',
      List.isEmpty_eq_false_iff] at h
    obtain ⟨⟨-, hne⟩, h⟩ := h
    have hpos := List.length_pos_iff.2 hne
    have hle := (List.takeWhile_prefix (l := cs.take 2) Char.isUpper).length_le
    rw [List.length_take] at hle
    rw [← Option.some.inj h, List.length_cons]
    omega

/-- Each candidate is shorter than the one before it. -/
theorem pairwise_candidates (h : digitPos < base.length) :
    (candidates base digitPos).Pairwise fun p q ↦ q.length < p.length := by
  rw [candidates]
  split
  · cases hseries : digitSeries base with
    | none => simp
    | some p =>
      have hlength := length_digitSeries hseries
      have htake : (base.take 1).length ≤ 1 := by rw [List.length_take]; omega
      dsimp only [Option.toList]
      split
      · exact List.pairwise_singleton ..
      · refine List.pairwise_append.2 ⟨List.pairwise_singleton .., List.pairwise_singleton ..,
          fun q hq q' hq' ↦ ?_⟩
        rw [List.mem_singleton.1 hq, List.mem_singleton.1 hq']
        omega
  · have hlt : (base.take digitPos).length < (base.take (digitPos + 1)).length := by
      rw [List.length_take, List.length_take]
      omega
    dsimp only
    split
    · split
      · exact List.pairwise_pair.2 hlt
      · exact List.pairwise_singleton ..
    · split
      · exact List.pairwise_singleton ..
      · exact List.Pairwise.nil

theorem longestFirst_candidates (h : digitPos < base.length) :
    longestFirst (candidates base digitPos) = candidates base digitPos := by
  have hpairwise := pairwise_candidates h
  have hnodup : (candidates base digitPos).Nodup :=
    hpairwise.imp fun hlt heq ↦ (heq ▸ hlt).false
  rw [longestFirst, hnodup.dedup]
  exact (hpairwise.imp Nat.le_of_lt).insertionSort_eq

/-- A candidate is a beginning of the callsign. -/
theorem ne_nil_of_mem_candidates (h : digitPos < base.length)
    (hp : p ∈ candidates base digitPos) : p ≠ [] := by
  have htake : ∀ n, base.take (n + 1) ≠ [] := fun n hnil ↦ by
    have hlength := congrArg List.length hnil
    rw [List.length_take, List.length_nil] at hlength
    omega
  rw [candidates] at hp
  split at hp
  · cases hseries : digitSeries base with
    | none =>
      rw [hseries] at hp
      simp only [Option.toList, List.not_mem_nil, if_false, List.nil_append,
        List.mem_singleton] at hp
      exact hp ▸ htake 0
    | some q =>
      have hlength := length_digitSeries hseries
      rw [hseries] at hp
      have hmem : p = q ∨ p = base.take 1 := by
        dsimp only [Option.toList] at hp
        split at hp
        · exact .inl (List.mem_singleton.1 hp)
        · simpa using hp
      rcases hmem with rfl | rfl
      · exact List.length_pos_iff.1 (by omega)
      · exact htake 0
  · obtain ⟨n, rfl⟩ := Nat.exists_eq_succ_of_ne_zero ‹¬ digitPos = 0›
    have hmem : p = base.take (n + 1 + 1) ∨ p = base.take (n + 1) := by
      dsimp only at hp
      split at hp <;> split at hp <;> simp_all
    rcases hmem with rfl | rfl <;> exact htake _

/-! ## The resolver -/

section Resolver

variable [UnicodeDigits]

/-- The candidates of a callsign; it has none without a digit. -/
def candidatesOf (base : List Char) : List (List Char) :=
  match base.findIdx? UnicodeDigits.isDigit with
  | none => []
  | some digitPos => longestFirst (candidates base digitPos)

theorem mem_candidatesOf (h : p ∈ candidatesOf base) :
    ∃ digitPos, base.findIdx? UnicodeDigits.isDigit = some digitPos ∧ digitPos < base.length ∧
      p ∈ candidates base digitPos := by
  rw [candidatesOf] at h
  split at h
  · exact absurd h List.not_mem_nil
  · rename_i digitPos hpos
    have hlt := (List.findIdx?_eq_some_iff_getElem.1 hpos).1
    rw [longestFirst_candidates hlt] at h
    exact ⟨digitPos, hpos, hlt, h⟩

theorem pairwise_candidatesOf (base : List Char) :
    (candidatesOf base).Pairwise fun p q ↦ q.length < p.length := by
  rw [candidatesOf]
  split
  · exact List.Pairwise.nil
  · rename_i digitPos hpos
    have hlt := (List.findIdx?_eq_some_iff_getElem.1 hpos).1
    rw [longestFirst_candidates hlt]
    exact pairwise_candidates hlt

/-- The longest candidate of a callsign that some range is compatible with. -/
structure Identifies (callsign p : List Char) : Prop where
  formed : p ∈ candidatesOf callsign
  allocated : ∃ r ∈ ituRanges, Compatible p r
  longest : ∀ q ∈ candidatesOf callsign, (∃ r ∈ ituRanges, Compatible q r) → q.length ≤ p.length

/-- What identifies a callsign is what is found. -/
theorem findSome?_candidatesOf (h : Identifies base p) :
    (candidatesOf base).findSome? (rangeLookup ituRanges) = rangeLookup ituRanges p := by
  obtain ⟨r, hr, hcompatible⟩ := h.allocated
  obtain ⟨last, -, -, -, hlookup⟩ := exists_rangeLookup ituTable hr hcompatible
  obtain ⟨front, back, hsplit⟩ := List.append_of_mem h.formed
  have hpairwise := pairwise_candidatesOf base
  rw [hsplit, List.pairwise_append] at hpairwise
  refine Eq.trans (List.findSome?_eq_some_iff.2 ⟨front, p, back, hsplit, hlookup, fun q hq ↦ ?_⟩)
    hlookup.symm
  -- A longer candidate has no range.
  refine (rangeLookup_eq_none_iff ituTable q).2 fun r' hr' hcompatible' ↦ ?_
  have hle := h.longest q (hsplit ▸ List.mem_append_left _ hq) ⟨r', hr', hcompatible'⟩
  exact absurd (hpairwise.2.2 q hq p (List.mem_cons_self ..)) (Nat.not_lt.2 hle)

variable [UnicodeData]

/-- `_strip_suffix`; `none` if there is nothing to look up. -/
def stripSuffix (callsign : List Char) : Option (List Char) :=
  if '/' ∉ callsign then some callsign
  else
    let parts := splitChars '/' callsign
    if upperChars (parts.getLastD []) ∈ unresolvableSuffixes then none
    else match parts with
      | [left, right] => if left.length < right.length then some left else parts.head?
      | _ => parts.head?

/-- `lookup_prefix`. -/
def Callsign.lookupPrefix (callsign : String) : Option String :=
  let text := stripChars (upperChars callsign.toList)
  if text.isEmpty then none
  else match stripSuffix text with
    | none => none
    | some base => ((candidatesOf base).findSome? (rangeLookup ituRanges)).join

/-- A callsign is resolved to a code of the table. -/
theorem exists_of_lookupPrefix {callsign iso : String}
    (h : Callsign.lookupPrefix callsign = some iso) : ∃ r ∈ ituRanges, r.iso = some iso := by
  unfold Callsign.lookupPrefix at h
  dsimp only at h
  split at h
  · cases h
  split at h
  · cases h
  · rename_i base _
    rw [Option.join_eq_some_iff] at h
    obtain ⟨p, -, hp⟩ := List.exists_of_findSome?_eq_some h
    exact exists_of_rangeLookup ituTable hp

omit [UnicodeDigits] [UnicodeData] in
theorem isCallChar_spec {c : Char} (h : isCallChar c = true) :
    c.toNat < 128 ∧ c.toUpper = c ∧ isSpace c = false ∧ c ≠ '/' := by
  have hascii : c.toNat < 128 :=
    (UInt32.lt_iff_toNat_lt.1 (Char.lt_def.1 (lt_tilde_of_isCallChar h))).trans (by decide)
  have hall : ∀ n < 128, isCallChar (Char.ofNat n) = true → (Char.ofNat n).toUpper = Char.ofNat n ∧
      isSpace (Char.ofNat n) = false ∧ Char.ofNat n ≠ '/' := by
    decide +kernel
  have hspec := hall c.toNat hascii
  rw [Char.ofNat_toNat] at hspec
  exact ⟨hascii, hspec h⟩

/-- A text of call characters is looked up as it is. -/
theorem lookupPrefix_of_isCallChar {s : String} (h : s.toList.all isCallChar = true) :
    Callsign.lookupPrefix s = ((candidatesOf s.toList).findSome? (rangeLookup ituRanges)).join := by
  have hspec := fun c hc ↦ isCallChar_spec (List.all_eq_true.1 h c hc)
  rw [Callsign.lookupPrefix, upperChars_eq_self fun c hc ↦ ⟨(hspec c hc).1, (hspec c hc).2.1⟩,
    stripChars_eq_self fun c hc ↦ (hspec c hc).2.2.1]
  split
  · rename_i hempty
    rw [List.isEmpty_iff.1 hempty]
    rfl
  · rw [stripSuffix, if_pos fun hmem ↦ (hspec _ hmem).2.2.2 rfl]

/-! ## Shared beginnings -/

/-- A callsign that is resolved has an identifying prefix whose ranges all belong to that country. -/
def NeverGuesses (callsign : String) : Prop :=
  ∀ country, Callsign.lookupPrefix callsign = some country → ∀ p, Identifies callsign.toList p →
    ∀ r ∈ ituRanges, Compatible p r → r.iso = some country

theorem lookupPrefix_of_identifies {s : String} (hs : s.toList.all isCallChar = true)
    (h : Identifies s.toList p) : ∃ last ∈ ituRanges, Compatible p last ∧
      (∀ r' ∈ ituRanges, Compatible p r' → r' = last ∨ r'.start.toList < last.start.toList) ∧
      Callsign.lookupPrefix s = last.iso := by
  obtain ⟨r, hr, hcompatible⟩ := h.allocated
  obtain ⟨last, hlast, hlastCompatible, hgreatest, hlookup⟩ :=
    exists_rangeLookup ituTable hr hcompatible
  refine ⟨last, hlast, hlastCompatible, hgreatest, ?_⟩
  have hfound : rangeLookup ituRanges p = some last.iso := hlookup
  rw [lookupPrefix_of_isCallChar hs, findSome?_candidatesOf h, hfound]
  rfl

/-- A shared beginning is resolved to the last of the countries. -/
theorem not_neverGuesses_of_shared {s : String} (hs : s.toList.all isCallChar = true)
    (h : Identifies s.toList p) (hshared : String.ofList p ∈ sharedSeries) : ¬ NeverGuesses s := by
  intro hnever
  obtain ⟨last, hlast, hcompatible, hgreatest, hlookup⟩ := lookupPrefix_of_identifies hs h
  cases hiso : last.iso with
  | none =>
    obtain ⟨r', hr', hcompatible', hlt⟩ :=
      exists_greater_of_noCountry hshared hlast hiso hcompatible
    rcases hgreatest r' hr' hcompatible' with rfl | hgt
    · exact lt_irrefl _ hlt
    · exact lt_asymm hlt hgt
  | some country =>
    obtain ⟨r, hr, r', hr', hcompatible, hcompatible', hne⟩ := exists_of_mem_sharedSeries hshared
    have hall := hnever country (hlookup.trans hiso) p h
    exact hne ((hall r hr hcompatible).trans (hall r' hr' hcompatible').symm)

/-- **The resolver guesses a country** exactly if the longest candidate with a range is a beginning
that countries share. -/
theorem neverGuesses_iff (s : String) (hs : s.toList.all isCallChar = true) :
    NeverGuesses s ↔ ∀ p, Identifies s.toList p → String.ofList p ∉ sharedSeries := by
  refine ⟨fun hnever p h hshared ↦ not_neverGuesses_of_shared hs h hshared hnever,
    fun hnot country hcountry p h r hr hcompatible ↦ ?_⟩
  obtain ⟨last, hlast, hlastCompatible, -, hlookup⟩ := lookupPrefix_of_identifies hs h
  obtain ⟨digitPos, -, hlt, hmem⟩ := mem_candidatesOf h.formed
  rw [iso_eq_of_not_mem_sharedSeries (ne_nil_of_mem_candidates hlt hmem) (hnot p h) hr hlast
    hcompatible hlastCompatible]
  exact hlookup.symm.trans hcountry

end Resolver

section Concrete

attribute [local instance] UnicodeData.ascii UnicodeDigits.ascii

theorem neverGuesses_iff_3D2AG : "3D2AG".toList.all isCallChar = true ∧
    (NeverGuesses "3D2AG" ↔ ∀ p, Identifies "3D2AG".toList p → String.ofList p ∉ sharedSeries) :=
  ⟨by decide, neverGuesses_iff "3D2AG" (by decide)⟩

/-- A callsign of Fiji is told from one of Eswatini by its third character. -/
theorem not_neverGuesses_3D2AG :
    "3D2AG".toList.all isCallChar = true ∧ ¬ NeverGuesses "3D2AG" := by
  have hformed : candidatesOf "3D2AG".toList = ["3D".toList, "3".toList] := by decide +kernel
  have hshared : String.ofList "3D".toList ∈ sharedSeries := by decide
  obtain ⟨r, hr, -, -, hcompatible, -, -⟩ := exists_of_mem_sharedSeries hshared
  refine ⟨by decide, not_neverGuesses_of_shared (by decide) ⟨?_, ⟨r, hr, hcompatible⟩, ?_⟩ hshared⟩
  · rw [hformed]
    exact List.mem_cons_self ..
  · intro q hq _
    rw [hformed] at hq
    simp only [List.mem_cons, List.not_mem_nil, or_false] at hq
    rcases hq with rfl | rfl <;> decide

end Concrete

end Ollog

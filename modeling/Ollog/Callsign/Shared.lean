import Ollog.Callsign.Table

/-!
# Beginnings that countries share

The endpoints of a range are three characters, and a candidate may have fewer.  Where the series of
different countries begin with the same characters, these belong to no country.  The table says which
beginnings these are: `iso_eq_of_not_mem_sharedSeries` for all others, and
`exists_of_mem_sharedSeries` for each of them.
-/

set_option autoImplicit false

namespace Ollog

open Bisect

/-- The beginnings that are shared. -/
def sharedSeries : List String :=
  ["3", "3D", "4", "5", "6", "7", "8", "9", "A", "C", "D", "E", "H", "J", "L", "O", "P", "S", "SS",
    "T", "U", "V", "X", "Y", "Z"]

/-- Where in the table the first two countries meet that share a beginning. -/
def sharedPlaces : List Nat :=
  [1, 4, 14, 28, 43, 54, 63, 72, 89, 104, 120, 130, 151, 177, 190, 198, 206, 216, 224, 228, 255,
    259, 276, 287, 301]

/-- Two neighbours that do not belong to one country meet in a shared beginning, if at all. -/
theorem isChain_shared : ituRanges.IsChain fun r r' ↦ r.iso = r'.iso ∨
    ∀ n ∈ [1, 2], r.stop.toList.take n = r'.start.toList.take n →
      String.ofList (r.stop.toList.take n) ∈ sharedSeries := by
  decide +kernel

theorem places_sharedSeries : ∀ x ∈ sharedSeries.zip sharedPlaces,
    ∃ r ∈ ituRanges[x.2]?, ∃ r' ∈ ituRanges[x.2 + 1]?,
      r.stop.toList.take x.1.toList.length = x.1.toList ∧
      r'.start.toList.take x.1.toList.length = x.1.toList ∧ r.iso ≠ r'.iso := by
  decide +kernel

variable {p : List Char} {r r' : SeriesRange}

/-- Ranges that one candidate is compatible with belong to one country, unless it is shared. -/
theorem iso_eq_of_not_mem_sharedSeries (hne : p ≠ []) (hp : String.ofList p ∉ sharedSeries)
    (hr : r ∈ ituRanges) (hr' : r' ∈ ituRanges) (hcompatible : Compatible p r)
    (hcompatible' : Compatible p r') : r.iso = r'.iso := by
  have hnext : ituRanges.IsChain fun r r' ↦ r.stop.toList.take p.length = p →
      r'.start.toList.take p.length = p → r.iso = r'.iso := by
    by_cases hlength : p.length < 3
    · refine isChain_shared.imp fun r r' h hstop hstart ↦ h.resolve_right fun hall ↦ hp ?_
      have hmem : p.length ∈ [1, 2] := by
        have := List.length_pos_iff.2 hne
        rw [List.mem_cons, List.mem_singleton]
        omega
      exact hstop ▸ hall p.length hmem (hstop.trans hstart.symm)
    · -- Whole endpoints are never the same.
      refine isChain_ituRanges.imp_of_mem_imp fun r r' hr hr' h hstop hstart ↦ ?_
      rw [List.take_of_length_le (by have := (series_ituRanges r hr).2.1; omega)] at hstop
      rw [List.take_of_length_le (by have := (series_ituRanges r' hr').1.1; omega)] at hstart
      exact absurd h.1 (hstop.trans hstart.symm).not_lt
  have hpairwise : ituRanges.Pairwise fun r r' ↦ Compatible p r → Compatible p r' →
      r.iso = r'.iso := ordered_ituRanges.eq_of_neighbours (take_mono p.length) hnext
  have hsymm : Std.Symm fun r r' : SeriesRange ↦ Compatible p r → Compatible p r' → r.iso = r'.iso :=
    ⟨fun _ _ h hr' hr ↦ (h hr hr').symm⟩
  exact hpairwise.forall_of_forall (fun _ _ _ _ ↦ rfl) hr hr' hcompatible hcompatible'

/-- A shared beginning is compatible with ranges of two countries. -/
theorem exists_of_mem_sharedSeries (h : String.ofList p ∈ sharedSeries) :
    ∃ r ∈ ituRanges, ∃ r' ∈ ituRanges, Compatible p r ∧ Compatible p r' ∧ r.iso ≠ r'.iso := by
  obtain ⟨i, hi, hget⟩ := List.getElem_of_mem h
  have hplaces : i < sharedPlaces.length := hi
  have hmem : (String.ofList p, sharedPlaces[i]) ∈ sharedSeries.zip sharedPlaces := by
    rw [← hget]
    exact List.mem_iff_getElem.2 ⟨i, by rw [List.length_zip]; exact lt_min hi hplaces,
      List.getElem_zip⟩
  obtain ⟨r, hr, r', hr', hstop, hstart, hne⟩ := places_sharedSeries _ hmem
  rw [String.toList_ofList] at hstop hstart
  have hin := List.mem_of_getElem? hr
  have hin' := List.mem_of_getElem? hr'
  exact ⟨r, hin, r', hin', ⟨(take_mono _ (bounds_ituRanges r hin)).trans hstop.le, hstop.ge⟩,
    ⟨hstart.le, hstart.ge.trans (take_mono _ (bounds_ituRanges r' hin'))⟩, hne⟩

/-- The greatest range of a shared beginning belongs to a country. -/
theorem exists_greater_of_noCountry (h : String.ofList p ∈ sharedSeries) (hr : r ∈ ituRanges)
    (hiso : r.iso = none) (hcompatible : Compatible p r) :
    ∃ r' ∈ ituRanges, Compatible p r' ∧ r.start.toList < r'.start.toList := by
  have hcases : ∀ name ∈ sharedSeries,
      (Compatible name.toList ⟨"4UA", "4UZ", none⟩ ∨ Compatible name.toList ⟨"4YA", "4YZ", none⟩ →
        Compatible name.toList ⟨"4ZA", "4ZZ", some "IL"⟩) ∧
      (Compatible name.toList ⟨"C7A", "C7Z", none⟩ →
        Compatible name.toList ⟨"C8A", "C9Z", some "MZ"⟩) := by
    decide +kernel
  obtain ⟨h4, hC⟩ := hcases _ h
  rw [String.toList_ofList] at h4 hC
  have hmem := noCountry_ituRanges r hr hiso
  simp only [List.mem_cons, List.not_mem_nil, or_false] at hmem
  rcases hmem with rfl | rfl | rfl
  · exact ⟨⟨"4ZA", "4ZZ", some "IL"⟩, List.mem_of_getElem? (i := 27) rfl, h4 (.inl hcompatible),
      by decide⟩
  · exact ⟨⟨"4ZA", "4ZZ", some "IL"⟩, List.mem_of_getElem? (i := 27) rfl, h4 (.inr hcompatible),
      by decide⟩
  · exact ⟨⟨"C8A", "C9Z", some "MZ"⟩, List.mem_of_getElem? (i := 110) rfl, hC hcompatible,
      by decide⟩

end Ollog

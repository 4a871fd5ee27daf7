import Ollog.Callsign.Resolver

/-!
# Operating from another country

An operator abroad puts the prefix of the country in front of the callsign, `EA3/G3YWX`.  The
resolver takes the prefix for a callsign of its own, and a callsign without a digit is none: many
countries have prefixes of letters only, and operators in them are not placed
(`lookupPrefix_portable_iff`).  A prefix with a digit is always resolved as it should be.
-/

set_option autoImplicit false

namespace Ollog

open Bisect

variable {p q cs : List Char} {a d : Char} {r : SeriesRange}

/-! ## Digits and letters in the table -/

theorem lt_of_isDigit_of_isUpper {c : Char} (hd : d.isDigit = true) (hc : c.isUpper = true) :
    d < c := by
  unfold Char.isUpper at hc
  simp only [Char.isDigit, Bool.and_eq_true, decide_eq_true_eq, UInt32.le_iff_toNat_le] at hd hc
  refine Char.lt_def.2 (UInt32.lt_iff_toNat_lt.2 ?_)
  exact (hd.2.trans_lt (by decide : '9'.val.toNat < 'A'.val.toNat)).trans_le hc.1

/-- Ranges that are compatible with a candidate are so with its beginnings. -/
theorem Compatible.of_prefix (hq : q <+: p) (h : Compatible p r) : Compatible q r := by
  have htake : ∀ xs : List Char, (xs.take p.length).take q.length = xs.take q.length := fun xs ↦ by
    rw [List.take_take, Nat.min_eq_left hq.length_le]
  have hp : p.take q.length = q := (List.prefix_iff_eq_take.1 hq).symm
  have hstart := take_mono q.length h.1
  have hstop := take_mono q.length h.2
  rw [htake, hp] at hstart hstop
  exact ⟨hstart, hstop⟩

/-- The start of a range that is compatible with a digit. -/
theorem start_of_isDigit (hr : r ∈ ituRanges) (h : Compatible (d :: cs) r) (hd : d.isDigit = true) :
    ∃ b c, r.start.toList = [d, b, c] ∧ b.isUpper = true ∧ c.isUpper = true ∧
      (r.start.toList.take 2 < ['3', 'D'] → r.stop.toList.take 2 < ['3', 'D']) := by
  obtain ⟨⟨hlength, hall⟩, -⟩ := series_ituRanges r hr
  obtain ⟨s, b, c, hstart⟩ := List.length_eq_three.1 hlength
  have hsingle : Compatible [d] r := h.of_prefix ⟨cs, rfl⟩
  have hshape := shape_ituRanges r hr
  rw [hstart] at hall hshape
  obtain ⟨hle, hge⟩ := compatible_iff.1 hsingle
  rw [hstart] at hle
  -- The first character is not behind the digit, so that it is one.
  have hs : s.isDigit = true := by
    have hchar : s.isUpper = true ∨ s.isDigit = true := by
      rw [List.all_cons, Bool.and_eq_true, isCallChar, Bool.or_eq_true] at hall
      exact hall.1
    refine hchar.resolve_left fun hupper ↦ ?_
    rcases cons_le_cons_iff.1 hle with hlt | ⟨rfl, -⟩
    · exact lt_asymm hlt (lt_of_isDigit_of_isUpper hd hupper)
    · exact lt_irrefl _ (lt_of_isDigit_of_isUpper hd hupper)
  obtain ⟨hstop, hupper, hbefore⟩ := hshape (by simp [hs])
  have hge' : [d] ≤ [s] := hge.trans_eq hstop
  have hsd : [s] = [d] := le_antisymm hle hge'
  obtain rfl : s = d := List.singleton_inj.1 hsd
  simp only [List.drop_succ_cons, List.drop_zero, List.all_cons, List.all_nil, Bool.and_true,
    Bool.and_eq_true] at hupper
  exact ⟨b, c, hstart, hupper.1, hupper.2, hstart ▸ hbefore⟩

/-- Behind a digit stands a letter. -/
theorem isUpper_of_compatible (hr : r ∈ ituRanges) (h : Compatible (d :: a :: cs) r)
    (hd : d.isDigit = true) (ha : isCallChar a = true) : a.isUpper = true := by
  obtain ⟨b, c, hstart, hb, -, -⟩ := start_of_isDigit hr h hd
  have hpair : Compatible [d, a] r := h.of_prefix ⟨cs, rfl⟩
  have hle := (compatible_iff.1 hpair).1
  rw [isCallChar, Bool.or_eq_true] at ha
  refine ha.resolve_right fun hdigit ↦ ?_
  have hlt := lt_of_isDigit_of_isUpper hdigit hb
  rw [hstart] at hle
  rcases cons_le_cons_iff.1 hle with hless | ⟨-, hle⟩
  · exact lt_irrefl _ hless
  · rcases cons_le_cons_iff.1 hle with hgt | ⟨rfl, -⟩
    · exact lt_asymm hlt hgt
    · exact lt_irrefl _ hlt

/-- No range begins with `3D` and a digit. -/
theorem not_compatible_3D (hr : r ∈ ituRanges) (hd : d.isDigit = true) :
    ¬ Compatible ['3', 'D', d] r := by
  intro h
  obtain ⟨b, c, hstart, -, hc, hbefore⟩ := start_of_isDigit hr h (by decide)
  have hpair : Compatible ['3', 'D'] r := h.of_prefix ⟨[d], rfl⟩
  obtain ⟨hstartPair, hstopPair⟩ := compatible_iff.1 hpair
  rcases hstartPair.lt_or_eq with hlt | heq
  · exact (hbefore hlt).not_ge hstopPair
  · have hle := (compatible_iff.1 h).1
    rw [hstart] at heq hle
    obtain rfl : b = 'D' := (List.cons_eq_cons.1 (List.cons_eq_cons.1 heq).2).1
    have hlt := lt_of_isDigit_of_isUpper hd hc
    simp only [List.length_cons, List.length_nil, List.take_succ_cons, List.take_zero,
      cons_le_cons_iff, lt_irrefl, true_and, false_or] at hle
    rcases hle with hgt | ⟨rfl, -⟩
    · exact lt_asymm hlt hgt
    · exact lt_irrefl _ hlt

/-! ## The first candidate of a prefix -/

theorem shape_sharedSeries : ∀ s ∈ sharedSeries, s.toList.any Char.isDigit = true →
    (s.toList.take 1).all Char.isDigit = true ∧
      (s.toList.length = 2 → s.toList = ['3', 'D']) := by
  decide

section Portable

variable [UnicodeDigits]

theorem isDigit_of_isCallChar (h : isCallChar a = true) :
    UnicodeDigits.isDigit a = a.isDigit :=
  UnicodeDigits.isDigit_ascii a (isCallChar_spec h).1

omit [UnicodeDigits] in
theorem exists_candidates_of_digitSeries (h : digitSeries p = some q) :
    ∃ rest, candidates p 0 = q :: rest := by
  rw [candidates, if_pos rfl, h]
  dsimp only [Option.toList]
  split
  · exact ⟨[], rfl⟩
  · exact ⟨[p.take 1], rfl⟩

omit [UnicodeDigits] in
theorem exists_candidates_of_pos {digitPos : Nat} (hpos : digitPos ≠ 0) (hlt : digitPos < p.length)
    (hlength : p.length ≤ 3) : ∃ rest, candidates p digitPos = p.take (digitPos + 1) :: rest := by
  have hshort : (p.take digitPos).length ≤ 3 := by rw [List.length_take]; omega
  have hlong : (p.take (digitPos + 1)).length ≤ 3 := by rw [List.length_take]; omega
  have hne : p.take (digitPos + 1) ∉ [p.take digitPos] := fun hmem ↦ by
    have heq := congrArg List.length (List.mem_singleton.1 hmem)
    rw [List.length_take, List.length_take] at heq
    omega
  rw [candidates, if_neg hpos, if_pos hshort]
  exact ⟨[p.take digitPos], if_pos ⟨hlong, hne⟩⟩

/-- The first candidate of a prefix with a digit is the prefix, or nothing that countries share. -/
theorem exists_first_candidate (hall : p.all isCallChar = true) (hlength : p.length ≤ 3)
    (hdigit : p.any Char.isDigit = true) (hr : r ∈ ituRanges) (h : Compatible p r) :
    ∃ q rest, candidatesOf p = q :: rest ∧ q <+: p ∧ q ≠ [] ∧
      (q = p ∨ String.ofList q ∉ sharedSeries) := by
  have hchar : ∀ c ∈ p, UnicodeDigits.isDigit c = c.isDigit := fun c hc ↦
    isDigit_of_isCallChar (List.all_eq_true.1 hall c hc)
  obtain ⟨digitPos, hpos⟩ : ∃ digitPos, p.findIdx? UnicodeDigits.isDigit = some digitPos := by
    obtain ⟨c, hc, hcdigit⟩ := List.any_eq_true.1 hdigit
    exact Option.isSome_iff_exists.1 (by
      rw [List.findIdx?_isSome]
      exact List.any_eq_true.2 ⟨c, hc, (hchar c hc).trans hcdigit⟩)
  obtain ⟨hlt, hget, hbefore⟩ := List.findIdx?_eq_some_iff_getElem.1 hpos
  rw [hchar _ (List.getElem_mem hlt)] at hget
  simp only [candidatesOf, hpos, longestFirst_candidates hlt]
  by_cases hzero : digitPos = 0
  · subst hzero
    obtain ⟨d, cs, rfl⟩ := List.exists_cons_of_length_pos hlt
    rw [List.getElem_cons_zero] at hget
    rcases cs with _ | ⟨a, cs⟩
    · have hnone : digitSeries [d] = none := by simp [digitSeries]
      exact ⟨[d], [], by simp [candidates, hnone], List.prefix_rfl, by simp, .inl rfl⟩
    · simp only [List.all_cons, Bool.and_eq_true] at hall
      have ha := isUpper_of_compatible hr h hget hall.2.1
      have hseries : digitSeries (d :: a :: cs) =
          some (d :: a :: (cs.take 1).takeWhile Char.isUpper) := by
        simp [digitSeries, hget, ha]
      obtain ⟨rest, hrest⟩ := exists_candidates_of_digitSeries hseries
      refine ⟨_, rest, hrest, ?_, by simp, ?_⟩
      · exact List.cons_prefix_cons.2 ⟨rfl, List.cons_prefix_cons.2
          ⟨rfl, (List.takeWhile_prefix _).trans (List.take_prefix ..)⟩⟩
      rcases cs with _ | ⟨b, cs⟩
      · exact .inl rfl
      have hnil : cs = [] := by
        simp only [List.length_cons] at hlength
        exact List.length_eq_zero_iff.1 (by omega)
      subst hnil
      by_cases hb : b.isUpper = true
      · left
        simp [hb]
      · -- Two digits around a letter.
        right
        have hbdigit : b.isDigit = true := by
          have hboth := hall.2.2
          rw [List.all_cons, Bool.and_eq_true, isCallChar, Bool.or_eq_true] at hboth
          exact hboth.1.resolve_left hb
        rw [List.take_succ_cons, List.takeWhile_cons_of_neg hb]
        intro hshared
        have hshape := (shape_sharedSeries _ hshared (by simp [hget])).2
        rw [String.toList_ofList] at hshape
        obtain ⟨rfl, rfl⟩ : d = '3' ∧ a = 'D' := by simpa using hshape rfl
        exact not_compatible_3D hr hbdigit h
  · obtain ⟨rest, hrest⟩ := exists_candidates_of_pos hzero hlt hlength
    have hhead : (p.take (digitPos + 1)).head? = some p[0] := by
      rw [List.head?_take, if_neg (by omega), List.head?_eq_getElem?, List.getElem?_eq_getElem]
    refine ⟨_, rest, hrest, List.take_prefix .., fun hnil ↦ ?_, .inr fun hshared ↦ ?_⟩
    · rw [hnil] at hhead
      cases hhead
    · have hany : (p.take (digitPos + 1)).any Char.isDigit = true :=
        List.any_eq_true.2 ⟨p[digitPos],
          List.mem_take_iff_getElem.2 ⟨digitPos, by omega, rfl⟩, hget⟩
      have hshape := (shape_sharedSeries _ hshared (by rwa [String.toList_ofList])).1
      have hfirst := hbefore 0 (by omega)
      rw [hchar _ (List.getElem_mem _)] at hfirst
      obtain ⟨c, cs, hcons⟩ := List.exists_cons_of_ne_nil (l := p.take (digitPos + 1)) (by
        intro hnil
        rw [hnil] at hhead
        cases hhead)
      rw [String.toList_ofList, hcons] at hshape
      rw [hcons] at hhead
      obtain rfl : c = p[0] := Option.some.inj hhead
      exact hfirst (by simpa using hshape)

variable [UnicodeData]

/-- Of a prefix in front of a callsign, the prefix is looked up. -/
theorem lookupPrefix_portable {P C : String} (hP : P.toList.all isCallChar = true)
    (hC : C.toList.all isCallChar = true) (hlonger : P.toList.length < C.toList.length)
    (hMM : C ≠ "MM") (hAM : C ≠ "AM") :
    Callsign.lookupPrefix (P ++ "/" ++ C) =
      ((candidatesOf P.toList).findSome? (rangeLookup ituRanges)).join := by
  have htext : (P ++ "/" ++ C).toList = P.toList ++ '/' :: C.toList := by
    rw [String.toList_append, String.toList_append, List.append_assoc]
    rfl
  have hspec : ∀ c ∈ P.toList ++ '/' :: C.toList,
      c.toNat < 128 ∧ c.toUpper = c ∧ isSpace c = false := by
    intro c hc
    rw [List.mem_append, List.mem_cons] at hc
    rcases hc with hc | rfl | hc
    · have h := isCallChar_spec (List.all_eq_true.1 hP c hc)
      exact ⟨h.1, h.2.1, h.2.2.1⟩
    · decide
    · have h := isCallChar_spec (List.all_eq_true.1 hC c hc)
      exact ⟨h.1, h.2.1, h.2.2.1⟩
  have hslash : ∀ {s : String}, s.toList.all isCallChar = true → '/' ∉ s.toList := fun hs hmem ↦
    (isCallChar_spec (List.all_eq_true.1 hs _ hmem)).2.2.2 rfl
  have hparts : splitChars '/' (P.toList ++ '/' :: C.toList) = [P.toList, C.toList] := by
    rw [splitChars_append_cons (hslash hP), splitChars_of_not_mem (hslash hC)]
  have hsuffix : upperChars C.toList ∉ unresolvableSuffixes := by
    rw [upperChars_eq_self fun c hc ↦ ⟨(hspec c (by simp [hc])).1, (hspec c (by simp [hc])).2.1⟩]
    simp only [unresolvableSuffixes, List.mem_cons, List.not_mem_nil, or_false, not_or]
    exact ⟨fun h ↦ hMM (String.toList_inj.1 h), fun h ↦ hAM (String.toList_inj.1 h)⟩
  have hstrip : stripSuffix (P.toList ++ '/' :: C.toList) = some P.toList := by
    rw [stripSuffix, if_neg (by simp), hparts]
    simp only [List.getLastD_cons, List.getLastD_nil, if_neg hsuffix, if_pos hlonger]
  rw [Callsign.lookupPrefix, htext, upperChars_eq_self fun c hc ↦ ⟨(hspec c hc).1, (hspec c hc).2.1⟩,
    stripChars_eq_self fun c hc ↦ (hspec c hc).2.2]
  simp [hstrip]

/-- **The prefix in front of a callsign** decides where the operator is, exactly if there is a digit
in it. -/
theorem lookupPrefix_portable_iff {P C : String} {country : String}
    (hP : P.toList.all isCallChar = true) (hlength : P.toList.length ∈ [1, 2, 3])
    (hallocated : ∃ r ∈ ituRanges, Compatible P.toList r)
    (hcountry : ∀ r ∈ ituRanges, Compatible P.toList r → r.iso = some country)
    (hC : C.toList.all isCallChar = true) (hlonger : P.toList.length < C.toList.length)
    (hMM : C ≠ "MM") (hAM : C ≠ "AM") :
    Callsign.lookupPrefix (P ++ "/" ++ C) = some country ↔ P.toList.any Char.isDigit = true := by
  rw [lookupPrefix_portable hP hC hlonger hMM hAM]
  constructor
  · intro h
    by_contra hno
    have hnone : P.toList.findIdx? UnicodeDigits.isDigit = none := by
      rw [List.findIdx?_eq_none_iff]
      intro c hc
      rw [isDigit_of_isCallChar (List.all_eq_true.1 hP c hc)]
      exact Bool.eq_false_iff.2 fun hc' ↦ hno (List.any_eq_true.2 ⟨c, hc, hc'⟩)
    rw [candidatesOf, hnone] at h
    cases h
  · intro hdigit
    obtain ⟨r, hr, hcompatible⟩ := hallocated
    have hshort : P.toList.length ≤ 3 := by
      simp only [List.mem_cons, List.not_mem_nil, or_false] at hlength
      omega
    obtain ⟨q, rest, hcandidates, hprefix, hne, hq⟩ :=
      exists_first_candidate hP hshort hdigit hr hcompatible
    obtain ⟨last, hlast, hlastCompatible, -, hlookup⟩ :=
      exists_rangeLookup ituTable hr (hcompatible.of_prefix hprefix)
    have hiso : last.iso = some country := by
      rcases hq with rfl | hq
      · exact hcountry last hlast hlastCompatible
      · exact (iso_eq_of_not_mem_sharedSeries hne hq hlast hr hlastCompatible
          (hcompatible.of_prefix hprefix)).trans (hcountry r hr hcompatible)
    have hfound : rangeLookup ituRanges q = some last.iso := hlookup
    rw [hcandidates, List.findSome?_cons, hfound, hiso]
    rfl

end Portable

section Concrete

attribute [local instance] UnicodeData.ascii UnicodeDigits.ascii

theorem lookupPrefix_portable_VK2 :
    Callsign.lookupPrefix ("VK2" ++ "/" ++ "G3YWX") = some "AU" ↔ "VK2".toList.any Char.isDigit = true := by
  have hrow : ⟨"VHA", "VNZ", some "AU"⟩ ∈ ituRanges := List.mem_of_getElem? (i := 267) rfl
  have hcompatible : Compatible "VK2".toList ⟨"VHA", "VNZ", some "AU"⟩ := by decide +kernel
  exact lookupPrefix_portable_iff (by decide) (by decide) ⟨_, hrow, hcompatible⟩
    (fun r hr h ↦ iso_eq_of_not_mem_sharedSeries (by decide) (by decide) hr hrow h hcompatible)
    (by decide) (by decide) (by decide) (by decide)

/-- France has no digit. -/
theorem not_lookupPrefix_portable_F :
    (∃ r ∈ ituRanges, Compatible "F".toList r) ∧
    (∀ r ∈ ituRanges, Compatible "F".toList r → r.iso = some "FR") ∧
    Callsign.lookupPrefix ("F" ++ "/" ++ "G3YWX") ≠ some "FR" := by
  have hrow : ⟨"FAA", "FZZ", some "FR"⟩ ∈ ituRanges := List.mem_of_getElem? (i := 149) rfl
  have hcompatible : Compatible "F".toList ⟨"FAA", "FZZ", some "FR"⟩ := by decide +kernel
  have hnone : candidatesOf "F".toList = [] := by decide
  refine ⟨⟨_, hrow, hcompatible⟩, fun r hr h ↦
    iso_eq_of_not_mem_sharedSeries (by decide) (by decide) hr hrow h hcompatible, ?_⟩
  rw [lookupPrefix_portable (by decide) (by decide) (by decide) (by decide) (by decide), hnone]
  exact (Option.some_ne_none _).symm

end Concrete

end Ollog

import Ollog.Aclog.Parser

/-!
# Reading tags back

A text that is put together from opening tags, closing tags and values without a `<` is a list of
`Piece`s, and what the regular expressions of the parser find in it can be read off the pieces.
They ignore case; `MarkupFold` is what that has to respect.
-/

set_option autoImplicit false

namespace Ollog

/-! ## Comparing characters -/

/-- A character of a tag, apart from its `<`. -/
def markupChar (c : Char) : Bool := adifNameChar c || c == '>' || c == '/'

/-- A way to compare characters that tells the characters of tags apart. -/
structure MarkupFold (fold : Char → Char) : Prop where
  lt : ∀ c, fold '<' = fold c → c = '<'
  markup : ∀ c d, markupChar c = true → markupChar d = true → fold c = fold d → c = d

theorem markupChar_of_adifNameChar {c : Char} (h : adifNameChar c = true) :
    markupChar c = true := by
  rw [markupChar, h]
  rfl

/-- The characters of tags, one by one. -/
def markupChars : List Char := "ABCDEFGHIJKLMNOPQRSTUVWXYZ0123456789_>/".toList

theorem mem_markupChars {c : Char} (h : markupChar c = true) : c ∈ markupChars := by
  have hall : ∀ n < 128, markupChar (Char.ofNat n) = true → Char.ofNat n ∈ markupChars := by
    decide +kernel
  have hlt : c.toNat < 128 := by
    simp only [markupChar, adifNameChar, charRange, Bool.or_eq_true, Bool.and_eq_true,
      decide_eq_true_eq, beq_iff_eq] at h
    obtain (((⟨-, h⟩ | ⟨-, h⟩) | rfl) | rfl) | rfl := h
    · exact Nat.lt_of_le_of_lt h (by decide)
    · exact Nat.lt_of_le_of_lt h (by decide)
    · decide
    · decide
    · decide
  rw [← Char.ofNat_toNat c] at h ⊢
  exact hall _ hlt h

/-- What a character is compared as is a small letter, or the character itself. -/
theorem tagLower_cases (c : Char) : tagLower c = c ∨ 97 ≤ (tagLower c).toNat := by
  have hupper : ∀ n < 128, charRange 'A' 'Z' (Char.ofNat n) = true →
      97 ≤ (Char.ofNat n).toLower.toNat := by decide +kernel
  rw [tagLower]
  split
  · rename_i h
    have hlt : c.toNat < 128 := by
      simp only [charRange, Bool.and_eq_true, decide_eq_true_eq] at h
      exact Nat.lt_of_le_of_lt h.2 (by decide)
    rw [← Char.ofNat_toNat c] at h ⊢
    exact .inr (hupper _ hlt h)
  split
  · exact .inr (by decide)
  split
  · exact .inr (by decide)
  · exact .inl rfl

theorem markupFold_tagLower : MarkupFold tagLower where
  lt c h := by
    obtain hc | hc := tagLower_cases c
    · exact hc.symm.trans h.symm
    · rw [← h] at hc
      exact absurd hc (by decide)
  markup c d hc hd := by
    have hall : ∀ c ∈ markupChars, ∀ d ∈ markupChars, tagLower c = tagLower d → c = d :=
      forall_mem_mem_of_all (by decide +kernel)
    exact hall c (mem_markupChars hc) d (mem_markupChars hd)

theorem tagFold_cases (c : Char) : tagFold c = c ∨ 97 ≤ (tagFold c).toNat := by
  rw [tagFold]
  split
  · exact .inr (by decide)
  split
  · exact .inr (by decide)
  · exact tagLower_cases c

theorem markupFold_tagFold : MarkupFold tagFold where
  lt c h := by
    obtain hc | hc := tagFold_cases c
    · exact hc.symm.trans h.symm
    · rw [← h] at hc
      exact absurd hc (by decide)
  markup c d hc hd := by
    have hall : ∀ c ∈ markupChars, ∀ d ∈ markupChars, tagFold c = tagFold d → c = d :=
      forall_mem_mem_of_all (by decide +kernel)
    exact hall c (mem_markupChars hc) d (mem_markupChars hd)

/-! ## Taking patterns off -/

theorem dropPattern_append (fold : Char → Char) (pattern rest : List Char) :
    dropPattern fold pattern (pattern ++ rest) = some rest := by
  induction pattern with
  | nil => rfl
  | cons p ps ih => rw [List.cons_append, dropPattern, if_pos rfl, ih]

theorem splitAtFirst_append (fold : Char → Char) {pattern : List Char} (h : pattern ≠ [])
    (rest : List Char) : splitAtFirst fold pattern (pattern ++ rest) = some ([], rest) := by
  cases pattern with
  | nil => exact absurd rfl h
  | cons p ps =>
    rw [List.cons_append, splitAtFirst, ← List.cons_append, dropPattern_append]

theorem splitAtFirst_cons {fold : Char → Char} {pattern : List Char} {c : Char} {cs : List Char}
    (h : dropPattern fold pattern (c :: cs) = none) : splitAtFirst fold pattern (c :: cs) =
      (splitAtFirst fold pattern cs).map fun (before, rest) ↦ (c :: before, rest) := by
  rw [splitAtFirst, h]

/-- What is not the beginning of a tag is passed over. -/
theorem splitAtFirst_text {fold : Char → Char} (hfold : MarkupFold fold) {text : List Char}
    (htext : '<' ∉ text) (pattern rest : List Char) :
    splitAtFirst fold ('<' :: pattern) (text ++ rest) =
      (splitAtFirst fold ('<' :: pattern) rest).map fun (before, rest) ↦ (text ++ before, rest) := by
  induction text with
  | nil => exact Option.map_id'.symm
  | cons c cs ih =>
    obtain ⟨hc, hcs⟩ := not_or.1 (mt List.mem_cons.2 htext)
    have hdrop : dropPattern fold ('<' :: pattern) (c :: (cs ++ rest)) = none := by
      rw [dropPattern, if_neg fun h ↦ hc (hfold.lt c h).symm]
    rw [List.cons_append, splitAtFirst_cons hdrop, ih hcs, Option.map_map]
    rfl

/-- What a pattern takes off a text. -/
theorem eq_append_of_dropPattern {fold : Char → Char} {pattern cs rest : List Char}
    (h : dropPattern fold pattern cs = some rest) :
    ∃ taken, cs = taken ++ rest ∧ taken.map fold = pattern.map fold := by
  induction pattern generalizing cs with
  | nil =>
    cases h
    exact ⟨[], rfl, rfl⟩
  | cons p ps ih =>
    cases cs with
    | nil => cases h
    | cons c cs =>
      rw [dropPattern] at h
      split at h
      · rename_i hc
        obtain ⟨taken, rfl, htaken⟩ := ih h
        exact ⟨c :: taken, rfl, by rw [List.map_cons, List.map_cons, htaken, hc]⟩
      · cases h

theorem eq_append_of_splitAtFirst {fold : Char → Char} {pattern cs before rest : List Char}
    (h : splitAtFirst fold pattern cs = some (before, rest)) :
    ∃ taken, cs = before ++ (taken ++ rest) ∧ taken.map fold = pattern.map fold := by
  induction cs generalizing before with
  | nil =>
    obtain ⟨rest', hrest, heq⟩ := Option.map_eq_some_iff.1 h
    cases heq
    exact eq_append_of_dropPattern hrest
  | cons c cs ih =>
    rw [splitAtFirst] at h
    split at h
    · rename_i hrest
      cases h
      exact eq_append_of_dropPattern hrest
    · obtain ⟨⟨before', rest'⟩, hsplit, heq⟩ := Option.map_eq_some_iff.1 h
      cases heq
      obtain ⟨taken, rfl, htaken⟩ := ih hsplit
      exact ⟨taken, rfl, htaken⟩

theorem dropPattern_append_right {fold : Char → Char} {pattern cs : List Char}
    (h : pattern.length ≤ cs.length) (text : List Char) :
    dropPattern fold pattern (cs ++ text) = (dropPattern fold pattern cs).map (· ++ text) := by
  induction pattern generalizing cs with
  | nil => rfl
  | cons p ps ih =>
    cases cs with
    | nil => exact absurd h (Nat.not_succ_le_zero _)
    | cons c cs =>
      rw [List.cons_append, dropPattern, dropPattern]
      split
      · exact ih (Nat.le_of_succ_le_succ h)
      · rfl

/-- **The first occurrence of a pattern** stays the first one, whatever follows the text. -/
theorem splitAtFirst_append_right {fold : Char → Char} {pattern cs before rest : List Char}
    (h : splitAtFirst fold pattern cs = some (before, rest)) (text : List Char) :
    splitAtFirst fold pattern (cs ++ text) = some (before, rest ++ text) := by
  have hlength := length_of_splitAtFirst h
  have hdrop : dropPattern fold pattern (cs ++ text) =
      (dropPattern fold pattern cs).map (· ++ text) := dropPattern_append_right (by omega) text
  induction cs generalizing before with
  | nil =>
    obtain ⟨rest', hrest, heq⟩ := Option.map_eq_some_iff.1 h
    cases heq
    cases pattern with
    | nil =>
      cases hrest
      cases text <;> rfl
    | cons p ps => cases hrest
  | cons c cs ih =>
    rw [splitAtFirst] at h
    rw [List.cons_append] at hdrop ⊢
    rw [splitAtFirst, hdrop]
    split at h
    · rename_i hrest
      cases h
      rw [hrest]
      rfl
    · rename_i hnone
      obtain ⟨⟨before', rest'⟩, hsplit, heq⟩ := Option.map_eq_some_iff.1 h
      cases heq
      have hlength' := length_of_splitAtFirst hsplit
      rw [hnone]
      dsimp only [Option.map_none]
      rw [ih hsplit hlength' (dropPattern_append_right (by omega) text), Option.map_some]

/-- No tag but `</name>` itself is `</name>`. -/
theorem dropPattern_name {fold : Char → Char} (hfold : MarkupFold fold) {name name' rest : List Char}
    (hname : ∀ c ∈ name, adifNameChar c = true) (hname' : ∀ c ∈ name', adifNameChar c = true)
    (hne : name ≠ name') :
    dropPattern fold (name ++ ['>']) (name' ++ '>' :: rest) = none := by
  have hgt : ∀ {c : Char}, adifNameChar c = true → fold c ≠ fold '>' := by
    intro c hc heq
    have := hfold.markup c '>' (markupChar_of_adifNameChar hc) rfl heq
    rw [this] at hc
    exact absurd hc (by decide)
  induction name generalizing name' with
  | nil =>
    cases name' with
    | nil => exact absurd rfl hne
    | cons c' cs' =>
      exact if_neg fun heq ↦ hgt (hname' c' (List.mem_cons_self ..)) heq.symm
  | cons c cs ih =>
    have hc := hname c (List.mem_cons_self ..)
    cases name' with
    | nil => exact if_neg (hgt hc)
    | cons c' cs' =>
      rw [List.cons_append, List.cons_append, dropPattern]
      split
      · rename_i heq
        have hc' := hname' c' (List.mem_cons_self ..)
        obtain rfl := hfold.markup c c' (markupChar_of_adifNameChar hc)
          (markupChar_of_adifNameChar hc') heq
        exact ih (fun d hd ↦ hname d (List.mem_cons_of_mem _ hd))
          (fun d hd ↦ hname' d (List.mem_cons_of_mem _ hd)) fun h ↦ hne (h ▸ rfl)
      · rfl

theorem beforeLast_append {fold : Char → Char} {pattern cs before : List Char}
    (h : beforeLast fold pattern cs = some before) (text : List Char) :
    beforeLast fold pattern (text ++ cs) = some (text ++ before) := by
  induction text with
  | nil => exact h
  | cons c text ih => rw [List.cons_append, beforeLast, ih, List.cons_append]

/-- A pattern that has no first occurrence has no last one. -/
theorem beforeLast_eq_none {fold : Char → Char} {pattern cs : List Char}
    (h : splitAtFirst fold pattern cs = none) : beforeLast fold pattern cs = none := by
  induction cs with
  | nil =>
    have hdrop : dropPattern fold pattern [] = none := Option.map_eq_none_iff.1 h
    rw [beforeLast, hdrop, Option.map_none]
  | cons c cs ih =>
    rw [splitAtFirst] at h
    split at h
    · cases h
    · rename_i hdrop
      rw [beforeLast, ih (Option.map_eq_none_iff.1 h), hdrop, Option.map_none]

/-! ## Pieces -/

/-- A piece of a message. -/
inductive Piece
  | opening (name : String) (isName : isAdifName name = true)
  | closing (name : String) (isName : isAdifName name = true)
  | text (value : String) (plain : '<' ∉ value.toList)

/-- The characters of a piece. -/
def Piece.chars : Piece → List Char
  | .opening name _ => '<' :: (name.toList ++ ['>'])
  | .closing name _ => closeTag name.toList
  | .text value _ => value.toList

/-- The text that some pieces make up. -/
def piecesText (pieces : List Piece) : List Char := pieces.flatMap Piece.chars

theorem piecesText_append (pieces pieces' : List Piece) :
    piecesText (pieces ++ pieces') = piecesText pieces ++ piecesText pieces' :=
  List.flatMap_append

theorem lt_not_mem_name {name : String} (h : isAdifName name = true) :
    '<' ∉ name.toList ++ ['>'] := by
  intro hmem
  obtain hmem | hmem := List.mem_append.1 hmem
  · exact absurd ((nameChars_of_isAdifName h).2 _ hmem) (by decide)
  · exact absurd hmem (by decide)

/-- **The first `</name>`** is not among pieces that are not `</name>`. -/
theorem splitAtFirst_pieces {fold : Char → Char} (hfold : MarkupFold fold) {name : String}
    (hname : isAdifName name = true) {pieces : List Piece}
    (hpieces : Piece.closing name hname ∉ pieces) (rest : List Char) :
    splitAtFirst fold (closeTag name.toList) (piecesText pieces ++ rest) =
      (splitAtFirst fold (closeTag name.toList) rest).map fun (before, rest) ↦
        (piecesText pieces ++ before, rest) := by
  induction pieces with
  | nil => exact Option.map_id'.symm
  | cons piece pieces ih =>
    obtain ⟨hpiece, htail⟩ := not_or.1 (mt List.mem_cons.2 hpieces)
    obtain ⟨hne, hchars⟩ := nameChars_of_isAdifName hname
    rw [piecesText, List.flatMap_cons, ← piecesText, List.append_assoc]
    cases piece with
    | text value plain =>
      rw [Piece.chars, closeTag, splitAtFirst_text hfold plain, ← closeTag, ih htail,
        Option.map_map]
      simp only [Function.comp_def, List.append_assoc]
    | opening name' hname' =>
      have hdrop : dropPattern fold (closeTag name.toList)
          ('<' :: ((name'.toList ++ ['>']) ++ (piecesText pieces ++ rest))) = none := by
        obtain ⟨hne', hchars'⟩ := nameChars_of_isAdifName hname'
        obtain ⟨c, cs, hcs⟩ := List.exists_cons_of_ne_nil hne'
        have hc := hchars' c (hcs ▸ List.mem_cons_self ..)
        rw [hcs, closeTag, dropPattern, if_pos rfl, List.cons_append, List.cons_append,
          dropPattern, if_neg]
        intro heq
        have := hfold.markup '/' c rfl (markupChar_of_adifNameChar hc) heq
        rw [← this] at hc
        exact absurd hc (by decide)
      rw [Piece.chars, List.cons_append, splitAtFirst_cons hdrop, closeTag,
        splitAtFirst_text hfold (lt_not_mem_name hname'), ← closeTag, ih htail, Option.map_map,
        Option.map_map]
      simp only [Function.comp_def, List.append_assoc, List.cons_append]
    | closing name' hname' =>
      have hnames : name.toList ≠ name'.toList := fun heq ↦ hpiece (by
        obtain rfl := String.toList_injective heq
        rfl)
      have hdrop : dropPattern fold (closeTag name.toList)
          ('<' :: (('/' :: (name'.toList ++ ['>'])) ++ (piecesText pieces ++ rest))) = none := by
        rw [closeTag, dropPattern, if_pos rfl, List.cons_append, dropPattern, if_pos rfl,
          List.append_assoc]
        exact dropPattern_name hfold hchars (nameChars_of_isAdifName hname').2 hnames
      have hplain : '<' ∉ '/' :: (name'.toList ++ ['>']) := fun h ↦
        (List.mem_cons.1 h).elim (by decide) (lt_not_mem_name hname')
      have htag : (Piece.closing name' hname').chars = '<' :: '/' :: (name'.toList ++ ['>']) := rfl
      rw [htag, List.cons_append, splitAtFirst_cons hdrop, closeTag,
        splitAtFirst_text hfold hplain, ← closeTag, ih htail, Option.map_map, Option.map_map]
      simp only [Function.comp_def, List.append_assoc, List.cons_append]

/-! ## What is found in the pieces -/

theorem openTag_of_ne {c : Char} (h : c ≠ '<') (cs : List Char) : openTag (c :: cs) = none := by
  unfold openTag
  split
  · rename_i heq
    cases heq
    exact absurd rfl h
  · rfl

theorem openTag_opening {name : String} (hname : isAdifName name = true) (rest : List Char) :
    openTag ((Piece.opening name hname).chars ++ rest) = some (name.toList, rest) := by
  obtain ⟨hne, hchars⟩ := nameChars_of_isAdifName hname
  have hall : ∀ c ∈ markupChars, adifNameChar c = true → isTagChar c = true :=
    forall_mem_of_all (by decide)
  have htag : ∀ c ∈ name.toList, isTagChar c = true := fun c hc ↦
    hall c (mem_markupChars (markupChar_of_adifNameChar (hchars c hc))) (hchars c hc)
  have htext : (Piece.opening name hname).chars ++ rest =
      '<' :: (name.toList ++ '>' :: rest) := by
    rw [Piece.chars, List.cons_append, List.append_assoc]
    rfl
  have hgt : isTagChar '>' = false := by decide
  obtain ⟨c, cs, hcs⟩ := List.exists_cons_of_ne_nil hne
  rw [htext, openTag, List.takeWhile_append_of_pos htag, List.dropWhile_append_of_pos htag,
    List.takeWhile_cons_of_neg (by simp [hgt]), List.dropWhile_cons_of_neg (by simp [hgt]),
    List.append_nil, hcs]
  rfl

theorem tags_cons_of_openTag_eq_none {c : Char} {cs : List Char} (h : openTag (c :: cs) = none) :
    tags (c :: cs) = tags cs := by
  rw [tags, List.length_cons, tagsWithin, h]
  exact tagsWithin_eq le_rfl

theorem tags_text {text : List Char} (htext : '<' ∉ text) (rest : List Char) :
    tags (text ++ rest) = tags rest := by
  induction text with
  | nil => rfl
  | cons c cs ih =>
    obtain ⟨hc, hcs⟩ := not_or.1 (mt List.mem_cons.2 htext)
    rw [List.cons_append, tags_cons_of_openTag_eq_none (openTag_of_ne (Ne.symm hc) _), ih hcs]

theorem tags_eq_nil {text : List Char} (htext : '<' ∉ text) : tags text = [] := by
  rw [← List.append_nil text, tags_text htext]
  rfl

theorem tags_element {text name rest value rest' : List Char} (hopen : openTag text = some (name, rest))
    (hclose : splitAtFirst tagLower (closeTag name) rest = some (value, rest')) :
    tags text = (name, value) :: tags rest' := by
  cases text with
  | nil => cases hopen
  | cons c cs =>
    rw [tags, List.length_cons, tagsWithin, hopen]
    dsimp only
    have hrest := length_of_openTag hopen
    have hlength := length_of_splitAtFirst hclose
    rw [List.length_cons] at hrest
    rw [hclose]
    exact congrArg _ (tagsWithin_eq (by omega))

theorem tags_unclosed {c : Char} {cs name rest : List Char}
    (hopen : openTag (c :: cs) = some (name, rest))
    (hclose : splitAtFirst tagLower (closeTag name) rest = none) :
    tags (c :: cs) = tags cs := by
  rw [tags, List.length_cons, tagsWithin, hopen]
  dsimp only
  rw [hclose]
  exact tagsWithin_eq le_rfl

/-- **An element** is found with everything that is in it. -/
theorem tags_pieces {name : String} (hname : isAdifName name = true) {inner : List Piece}
    (hinner : Piece.closing name hname ∉ inner) (rest : List Piece) :
    tags (piecesText (.opening name hname :: inner ++ .closing name hname :: rest)) =
      (name.toList, piecesText inner) :: tags (piecesText rest) := by
  have htext : piecesText (.opening name hname :: inner ++ .closing name hname :: rest) =
      (Piece.opening name hname).chars ++
        (piecesText inner ++ (closeTag name.toList ++ piecesText rest)) := by
    rw [List.cons_append, piecesText, List.flatMap_cons, List.flatMap_append, List.flatMap_cons]
    rfl
  rw [htext]
  refine tags_element (openTag_opening hname _) ?_
  have hne : closeTag name.toList ≠ [] := (nomatch ·)
  rw [splitAtFirst_pieces markupFold_tagLower hname hinner, splitAtFirst_append _ hne]
  dsimp only [Option.map_some]
  rw [List.append_nil]

/-- **A tag that is never closed** is passed over. -/
theorem tags_pieces_unclosed {name : String} (hname : isAdifName name = true) {rest : List Piece}
    (hrest : Piece.closing name hname ∉ rest) :
    tags (piecesText (.opening name hname :: rest)) = tags (piecesText rest) := by
  have htext : piecesText (.opening name hname :: rest) =
      '<' :: ((name.toList ++ ['>']) ++ piecesText rest) := rfl
  have hnone : splitAtFirst tagLower (closeTag name.toList) (piecesText rest) = none := by
    have hpieces := splitAtFirst_pieces markupFold_tagLower hname hrest []
    rwa [List.append_nil] at hpieces
  have hopen : openTag ('<' :: ((name.toList ++ ['>']) ++ piecesText rest)) =
      some (name.toList, piecesText rest) := openTag_opening hname _
  rw [htext, tags_unclosed hopen hnone, tags_text (lt_not_mem_name hname)]

end Ollog

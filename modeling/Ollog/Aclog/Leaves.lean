import Ollog.Aclog.Markup

/-!
# The leaves of a message

`_extract_ordered_leaf_tags` looks for tags in the values of the tags it finds, and keeps those values
that have none.  Nothing has to be assumed about the text: a value is shorter than the text it is
found in, so that the recursion ends; a search that finds nothing shows that there is no pair of tags
to find; and matches do not overlap, so that leaves lie in the text one behind the other
(`extractOrderedLeafTags_spec`).
-/

set_option autoImplicit false

namespace Ollog

/-! ## Pairs of tags -/

/-- `<name>` and `</name>`, in whichever case. -/
structure TagPair (name close : List Char) : Prop where
  name_ne_nil : name ≠ []
  isTagChar : ∀ c ∈ name, isTagChar c = true
  close_eq : close.map tagLower = (closeTag name).map tagLower

/-- There is a value between two tags of one name somewhere in the text. -/
def HasTagPair (text : List Char) : Prop :=
  ∃ before name value close rest, TagPair name close ∧
    text = before ++ '<' :: (name ++ '>' :: (value ++ (close ++ rest)))

/-- Values between their tags, in the order of the text and without overlap. -/
inductive Spaced : List Char → List (List Char × List Char) → Prop
  | nil (text : List Char) : Spaced text []
  | cons (before : List Char) {name value close rest : List Char}
      {items : List (List Char × List Char)} : TagPair name close → Spaced rest items →
      Spaced (before ++ '<' :: (name ++ '>' :: (value ++ (close ++ rest)))) ((name, value) :: items)

variable {name value close cs rest text xs ys : List Char}
  {items items' : List (List Char × List Char)}

theorem Spaced.prepend (xs : List Char) (h : Spaced ys items) : Spaced (xs ++ ys) items := by
  cases h with
  | nil => exact .nil _
  | cons before hpair hrest =>
    rw [← List.append_assoc]
    exact .cons (xs ++ before) hpair hrest

theorem Spaced.append (h : Spaced xs items) (h' : Spaced ys items') :
    Spaced (xs ++ ys) (items ++ items') := by
  induction h with
  | nil text => exact h'.prepend text
  | cons before hpair _ ih =>
    simp only [List.append_assoc, List.cons_append]
    exact .cons before hpair ih

/-! ## The search -/

theorem eq_of_openTag (h : openTag cs = some (name, rest)) :
    cs = '<' :: (name ++ '>' :: rest) ∧ name ≠ [] := by
  unfold openTag at h
  split at h
  · rename_i cs
    split at h
    · rename_i hname hrest
      cases h
      rw [← hname, ← hrest, List.takeWhile_append_dropWhile]
      exact ⟨rfl, by rw [hname]; exact List.cons_ne_nil _ _⟩
    · cases h
  · cases h

theorem openTag_append (hne : name ≠ []) (hname : ∀ c ∈ name, isTagChar c = true)
    (rest : List Char) : openTag ('<' :: (name ++ '>' :: rest)) = some (name, rest) := by
  have hgt : ¬ isTagChar '>' = true := by decide
  rw [openTag, List.takeWhile_append_of_pos hname, List.dropWhile_append_of_pos hname,
    List.takeWhile_cons_of_neg hgt, List.dropWhile_cons_of_neg hgt, List.append_nil]
  cases name with
  | nil => exact absurd rfl hne
  | cons c name => rfl

/-- What a pattern matches is found, there or earlier. -/
theorem isSome_splitAtFirst {fold : Char → Char} {pattern : List Char}
    (h : close.map fold = pattern.map fold) (value rest : List Char) :
    (splitAtFirst fold pattern (value ++ (close ++ rest))).isSome = true := by
  have hdrop : dropPattern fold pattern (close ++ rest) = some rest := by
    induction pattern generalizing close with
    | nil =>
      rw [List.map_nil, List.map_eq_nil_iff] at h
      rw [h]
      rfl
    | cons p ps ih =>
      cases close with
      | nil => cases h
      | cons c cs =>
        rw [List.map_cons, List.map_cons, List.cons.injEq] at h
        rw [List.cons_append, dropPattern, if_pos h.1.symm, ih h.2]
  induction value with
  | nil =>
    rw [List.nil_append]
    cases hcs : close ++ rest with
    | nil =>
      rw [hcs] at hdrop
      rw [splitAtFirst, hdrop]
      rfl
    | cons c cs =>
      rw [hcs] at hdrop
      rw [splitAtFirst, hdrop]
      rfl
  | cons c cs ih =>
    rw [List.cons_append, splitAtFirst]
    split
    · rfl
    · rw [Option.isSome_map]
      exact ih

/-- What the search does at a character. -/
theorem tags_cons_cases (c : Char) (cs : List Char) : tags (c :: cs) = tags cs ∨
    ∃ name rest value rest', openTag (c :: cs) = some (name, rest) ∧
      splitAtFirst tagLower (closeTag name) rest = some (value, rest') ∧
      tags (c :: cs) = (name, value) :: tags rest' := by
  cases hopen : openTag (c :: cs) with
  | none => exact .inl (tags_cons_of_openTag_eq_none hopen)
  | some tag =>
    obtain ⟨name, rest⟩ := tag
    cases hclose : splitAtFirst tagLower (closeTag name) rest with
    | none => exact .inl (tags_unclosed hopen hclose)
    | some parts =>
      exact .inr ⟨name, rest, parts.1, parts.2, rfl, hclose, tags_element hopen hclose⟩

/-- **A search that finds nothing** has nothing to find. -/
theorem tags_ne_nil_of_hasTagPair (h : HasTagPair text) : tags text ≠ [] := by
  obtain ⟨before, name, value, close, rest, hpair, rfl⟩ := h
  induction before with
  | nil =>
    have hopen := openTag_append hpair.name_ne_nil hpair.isTagChar (value ++ (close ++ rest))
    obtain ⟨parts, hclose⟩ := Option.isSome_iff_exists.1
      (isSome_splitAtFirst hpair.close_eq value rest)
    rw [List.nil_append, tags_element hopen hclose]
    exact List.cons_ne_nil _ _
  | cons c before ih =>
    rw [List.cons_append]
    rcases tags_cons_cases c (before ++ '<' :: (name ++ '>' :: (value ++ (close ++ rest))))
      with h | ⟨_, _, _, _, -, -, h⟩
    · rw [h]
      exact ih
    · rw [h]
      exact List.cons_ne_nil _ _

/-- **What the search finds** lies in the text one behind the other. -/
theorem spaced_tags (text : List Char) : Spaced text (tags text) := by
  induction hn : text.length using Nat.strong_induction_on generalizing text with
  | h n ih =>
    cases text with
    | nil => exact .nil []
    | cons c cs =>
      rw [List.length_cons] at hn
      rcases tags_cons_cases c cs with h | ⟨name, rest, value, rest', hopen, hclose, h⟩
      · rw [h]
        exact (ih cs.length (by omega) cs rfl).prepend [c]
      · rw [h]
        obtain ⟨close, rfl, hclose_eq⟩ := eq_append_of_splitAtFirst hclose
        obtain ⟨htext, hne⟩ := eq_of_openTag hopen
        have hlength := congrArg List.length htext
        simp only [List.length_cons, List.length_append] at hlength
        rw [htext]
        exact .cons [] ⟨hne, isTagChar_of_openTag hopen, hclose_eq⟩
          (ih rest'.length (by omega) rest' rfl)

/-! ## Leaves -/

/-- What each of some values is replaced by lies in it. -/
theorem Spaced.flatMap {f : List Char × List Char → List (List Char × List Char)}
    (h : Spaced text items) (hf : ∀ item ∈ items, f item = [item] ∨ Spaced item.2 (f item)) :
    Spaced text (items.flatMap f) := by
  induction h with
  | nil text => exact .nil text
  | @cons before name value close rest items hpair hrest ih =>
    rw [List.flatMap_cons]
    have htail := ih fun item hitem ↦ hf item (List.mem_cons_of_mem _ hitem)
    rcases hf (name, value) (List.mem_cons_self ..) with hself | hnested
    · rw [hself]
      exact .cons before hpair htail
    · -- The value of the outer pair, with what it is closed by in front of the rest.
      have hinner : Spaced (value ++ (close ++ rest)) (f (name, value) ++ items.flatMap f) :=
        hnested.append (htail.prepend close)
      have houter := (hinner.prepend ['>']).prepend name
      exact (houter.prepend ['<']).prepend before

section

variable [UnicodeData]

/-- The item of a leaf. -/
def leafItem (leaf : List Char × List Char) : String × String :=
  (upper (String.ofList leaf.1), String.ofList leaf.2)

theorem extractOrderedLeafTags_eq_nil_iff :
    extractOrderedLeafTags text = [] ↔ tags text = [] := by
  rw [extractOrderedLeafTags_eq, List.flatMap_eq_nil_iff]
  constructor
  · intro h
    refine List.eq_nil_iff_forall_not_mem.2 fun item hitem ↦ ?_
    have hnil := h item hitem
    dsimp only at hnil
    split at hnil
    · exact List.cons_ne_nil _ _ hnil
    · rename_i hne
      exact hne hnil
  · intro h item hitem
    rw [h] at hitem
    exact absurd hitem List.not_mem_nil

/-- The leaves of a text, where they lie in it. -/
theorem exists_leaves (text : List Char) : ∃ leaves, Spaced text leaves ∧
    extractOrderedLeafTags text = leaves.map leafItem ∧ ∀ leaf ∈ leaves, ¬ HasTagPair leaf.2 := by
  induction hn : text.length using Nat.strong_induction_on generalizing text with
  | h n ih =>
    have hnested : ∀ item ∈ tags text, ∃ leaves, (leaves = [item] ∨ Spaced item.2 leaves) ∧
        (extractOrderedLeafTags item.2 = [] → leaves.map leafItem =
          [(upper (String.ofList item.1), String.ofList item.2)]) ∧
        (extractOrderedLeafTags item.2 ≠ [] →
          leaves.map leafItem = extractOrderedLeafTags item.2) ∧
        ∀ leaf ∈ leaves, ¬ HasTagPair leaf.2 := by
      intro item hitem
      cases hleaves : extractOrderedLeafTags item.2 with
      | nil =>
        refine ⟨[item], .inl rfl, fun _ ↦ rfl, fun hne ↦ absurd rfl hne, fun leaf hleaf hpair ↦ ?_⟩
        rw [List.mem_singleton.1 hleaf] at hpair
        exact tags_ne_nil_of_hasTagPair hpair (extractOrderedLeafTags_eq_nil_iff.1 hleaves)
      | cons first nested =>
        obtain ⟨leaves, hspaced, heq, hleaf⟩ :=
          ih item.2.length (hn ▸ length_lt_of_mem_tags hitem) item.2 rfl
        rw [← hleaves]
        exact ⟨leaves, .inr hspaced, fun hnil ↦ (by cases hleaves.symm.trans hnil),
          fun _ ↦ heq.symm, hleaf⟩
    choose! f hspaced hnil hcons hleaf using hnested
    refine ⟨(tags text).flatMap f, (spaced_tags text).flatMap hspaced, ?_, fun leaf h ↦ ?_⟩
    · rw [extractOrderedLeafTags_eq, List.map_flatMap]
      refine List.flatMap_congr fun item hitem ↦ ?_
      dsimp only
      split
      · rename_i hempty
        exact (hnil item hitem hempty).symm
      · rename_i hne
        exact (hcons item hitem hne).symm
    · obtain ⟨item, hitem, h⟩ := List.mem_flatMap.1 h
      exact hleaf item hitem leaf h

/-- A bound on the depth that is greater than the length of the text is never reached. -/
theorem leafTagsWithin_eq {depth : Nat} (h : text.length < depth) :
    leafTagsWithin depth text = extractOrderedLeafTags text := by
  induction depth generalizing text with
  | zero => exact absurd h (Nat.not_lt_zero _)
  | succ depth ih =>
    rw [leafTagsWithin, extractOrderedLeafTags_eq]
    refine List.flatMap_congr fun item hitem ↦ ?_
    obtain ⟨key, value⟩ := item
    have hlength := length_lt_of_mem_tags hitem
    dsimp only
    rw [ih (by omega)]

/-- **The extraction of leaves** ends, since both of its loops do before a bound on their number of
steps that the length of the text gives; and it returns values without a pair of tags in them, which
lie between the tags they are named after, in the order of the text and without overlap. -/
theorem extractOrderedLeafTags_spec (text : List Char) :
    (∀ steps, text.length ≤ steps → tagsWithin steps text = tags text) ∧
    (∀ depth, text.length < depth → leafTagsWithin depth text = extractOrderedLeafTags text) ∧
    (∀ item ∈ extractOrderedLeafTags text, ¬ HasTagPair item.2.toList) ∧
    ∃ leaves, Spaced text leaves ∧ extractOrderedLeafTags text = leaves.map leafItem := by
  obtain ⟨leaves, hspaced, heq, hleaf⟩ := exists_leaves text
  refine ⟨fun steps ↦ tagsWithin_eq, fun depth ↦ leafTagsWithin_eq, fun item hitem ↦ ?_,
    leaves, hspaced, heq⟩
  rw [heq] at hitem
  obtain ⟨leaf, hmem, rfl⟩ := List.mem_map.1 hitem
  rw [leafItem, String.toList_ofList]
  exact hleaf leaf hmem

end

end Ollog

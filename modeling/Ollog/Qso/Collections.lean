import Ollog.Bson.Database

/-!
# The collections of the users

The log of a user is the collection `<username>_qsos`.  `qso_collection_name` takes only names that
the driver takes as well, and no two users share a collection.
-/

set_option autoImplicit false

namespace Ollog

/-- A character of a user name: `[A-Za-z0-9_-]`. -/
def safeUsernameChar (c : Char) : Bool :=
  charRange 'A' 'Z' c || charRange 'a' 'z' c || charRange '0' '9' c || c == '_' || c == '-'

/-- `qso_collection_name`. -/
def qsoCollectionName (username : String) : Except PyErr String :=
  let collectionName := username ++ "_qsos"
  if username = "" then .error (.valueError "username must not be empty")
  else if username ≠ strip username then
    .error (.valueError "username must not contain leading or trailing whitespace")
  else if !username.toList.all safeUsernameChar then
    .error (.valueError
      "username may only contain ASCII letters, digits, underscore, and hyphen")
  else if collectionName.toList.contains (Char.ofNat 0) || containsText "$" collectionName ||
      "system.".toList.isPrefixOf collectionName.toList then
    .error (.valueError "username produces an unsafe MongoDB collection name")
  else .ok collectionName

theorem qsoCollectionName_eq_ok {username coll : String}
    (h : qsoCollectionName username = .ok coll) :
    coll = username ++ "_qsos" ∧ ∀ c ∈ coll.toList, safeUsernameChar c = true := by
  unfold qsoCollectionName at h
  dsimp only at h
  split at h
  · cases h
  split at h
  · cases h
  split at h
  · cases h
  rename_i hsafe
  split at h
  · cases h
  obtain rfl := Except.ok.inj h
  refine ⟨rfl, fun c hc ↦ ?_⟩
  rw [String.toList_append, List.mem_append] at hc
  obtain hc | hc := hc
  · rw [Bool.not_eq_true', Bool.not_eq_false] at hsafe
    exact List.all_eq_true.1 hsafe c hc
  · have hsuffix : "_qsos".toList.all safeUsernameChar = true := by decide
    exact List.all_eq_true.1 hsuffix c hc

/-- Different users have different collections. -/
theorem qsoCollectionName_injective {username other coll : String}
    (h : qsoCollectionName username = .ok coll) (h' : qsoCollectionName other = .ok coll) :
    username = other :=
  String.append_left_inj _ |>.1
    ((qsoCollectionName_eq_ok h).1.symm.trans (qsoCollectionName_eq_ok h').1)

/-- The name of a user's collection is one the driver accepts. -/
theorem collectionNameOk_of_user {username coll : String}
    (h : qsoCollectionName username = .ok coll) : collectionNameOk coll = true := by
  obtain ⟨hcoll, hsafe⟩ := qsoCollectionName_eq_ok h
  have hnot : ∀ c ∈ ['.', '$', Char.ofNat 0], c ∉ coll.toList := by
    intro c hc hmem
    have hreserved : ['.', '$', Char.ofNat 0].any safeUsernameChar = false := by decide
    exact absurd (hsafe c hmem) (List.any_eq_false.1 hreserved c hc)
  have htext : ∀ s : String, ∀ c ∈ ['.', '$', Char.ofNat 0], c ∈ s.toList →
      containsText s coll = false := by
    intro s c hc hs
    rw [containsText, decide_eq_false_iff_not]
    exact fun hsub ↦ hnot c hc (hsub.subset hs)
  have hne : coll ≠ "" := by
    rintro rfl
    have hlength : 0 = username.length + 5 := by
      rw [← show "_qsos".length = 5 from rfl, ← String.length_append, ← hcoll]
      rfl
    omega
  have hhead : coll.toList.head? ≠ some '.' := fun heq ↦
    hnot '.' (by decide) (List.mem_of_head? heq)
  have hlast : coll.toList.getLast? ≠ some '.' := fun heq ↦
    hnot '.' (by decide) (List.mem_of_getLast? heq)
  have hzero : coll.toList.contains (Char.ofNat 0) = false := by
    rw [← Bool.not_eq_true, List.contains_iff_mem]
    exact hnot _ (by decide)
  simp only [collectionNameOk, htext ".." '.' (by decide) (by decide),
    htext "$" '$' (by decide) (by decide), hzero, Bool.not_false, Bool.true_or, Bool.and_true,
    Bool.and_eq_true, bne_iff_ne, ne_eq]
  exact ⟨⟨hne, hhead⟩, hlast⟩

/-- A collection that can be opened. -/
abbrev UserCollection := {coll : String // collectionNameOk coll = true}

theorem UserCollection.nameOk (collection : UserCollection) :
    collectionNameOk collection.1 = true := collection.2

/-- `get_user_qso_collection`. -/
def getUserQsoCollection (username : String) : Except PyErr UserCollection :=
  match h : qsoCollectionName username with
  | .ok coll => .ok ⟨coll, collectionNameOk_of_user h⟩
  | .error exc => .error exc

theorem getUserQsoCollection_eq_ok {username : String} {coll : UserCollection} :
    getUserQsoCollection username = .ok coll ↔ qsoCollectionName username = .ok coll.1 := by
  rw [getUserQsoCollection]
  split
  · rename_i name h
    refine ⟨fun hok ↦ ?_, fun hok ↦ ?_⟩
    · cases hok
      exact h
    · exact congrArg Except.ok (Subtype.ext (Except.ok.inj (h.symm.trans hok)))
  · rename_i exc h
    exact ⟨fun hok ↦ (nomatch hok), fun hok ↦ (nomatch h.symm.trans hok)⟩

/-- A database nothing has been written to. -/
def Sample.database : Database := ⟨"ollog", ∅, Database.names_ok_empty⟩

end Ollog

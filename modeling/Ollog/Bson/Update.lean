import Ollog.Lib.Effects
import Ollog.Python.Exceptions

/-!
# `$set`

An update addresses a field by a *path*: the components of its name between the dots.  The server
checks the paths of one update against each other before it applies any of them, and refuses the
update as a whole if one of them cannot be applied.

The logbook passes client-chosen names to `$set`, so what matters below is which top-level fields
an update can touch: exactly the *roots* of its paths (`getElem?_applySet_of_untouched`).  A root
that is written through a longer path ends up as a container (`applySet_container`), and one that
is written under its plain name gets the value given (`getElem?_applySet_plain`).
-/

set_option autoImplicit false

namespace Ollog

open Effects

/-! ## Paths -/

/-- The components of a path. -/
def pathOf (key : String) : List String := (splitChars '.' key.toList).map String.ofList

/-- The top-level field a path starts at. -/
def rootOf (key : String) : String := (pathOf key).headD ""

/-- A name that addresses the top-level field of that name. -/
def PlainKey (key : String) : Prop :=
  key ≠ "" ∧ '.' ∉ key.toList ∧ key.toList.head? ≠ some '$'

instance : DecidablePred PlainKey := fun key ↦ by unfold PlainKey; infer_instance

theorem pathOf_ne_nil (key : String) : pathOf key ≠ [] := by
  rw [pathOf, Ne, List.map_eq_nil_iff]
  exact splitChars_ne_nil '.' key.toList

theorem pathOf_of_plain {key : String} (h : '.' ∉ key.toList) : pathOf key = [key] := by
  rw [pathOf, splitChars_of_not_mem h, List.map_singleton, String.ofList_toList]

@[simp] theorem rootOf_of_plain {key : String} (h : PlainKey key) : rootOf key = key := by
  rw [rootOf, pathOf_of_plain h.2.1, List.headD_cons]

theorem pathOf_eq_cons (key : String) : pathOf key = rootOf key :: (pathOf key).tail := by
  cases h : pathOf key with
  | nil => exact absurd h (pathOf_ne_nil key)
  | cons r rest => rw [rootOf, h, List.headD_cons, List.tail_cons]

/-- A root has no dot in it. -/
theorem dot_notMem_rootOf (key : String) : '.' ∉ (rootOf key).toList := by
  have hmem : rootOf key ∈ pathOf key := by
    rw [pathOf_eq_cons]
    exact List.mem_cons_self ..
  rw [pathOf, List.mem_map] at hmem
  obtain ⟨p, hp, heq⟩ := hmem
  rw [← heq, String.toList_ofList]
  exact not_mem_of_mem_splitChars hp

/-- A path of one component is written as that component. -/
theorem rootOf_eq_of_tail_eq_nil {key : String} (h : (pathOf key).tail = []) :
    rootOf key = key := by
  have hpath : pathOf key = [rootOf key] := by rw [pathOf_eq_cons, h]
  rw [pathOf, List.map_eq_singleton_iff] at hpath
  obtain ⟨p, hp, heq⟩ := hpath
  rw [← heq, eq_of_splitChars_eq_singleton hp, String.ofList_toList]

/-! ## Checking the paths of an update -/

/-- A component the server accepts in a path; `$[]` stands for all elements of an array. -/
def componentOk (c : String) : Bool := c != "" && (c.toList.head? != some '$' || c == "$[]")

/-- One path on its own: no empty component, and no operator where a field name is needed. -/
def pathOk (path : List String) : Bool :=
  path.all componentOk && path.headD "" != "$[]"

/-- Two paths of an update one of which leads into the other. -/
def pathConflict (keys : List String) : Option (String × String) :=
  keys.findSome? fun key ↦
    (keys.find? fun other ↦ key != other && (pathOf key).isPrefixOf (pathOf other)).map (key, ·)

/-- The check of all paths of an update: each is well formed, and none leads into another. -/
def checkPaths (keys : List String) : Except PyErr Unit :=
  match keys.find? fun key ↦ !pathOk (pathOf key) with
  | some key => .error (.writeError ("The update path '" ++ key ++
      "' contains an empty or dollar-prefixed field name, which is not allowed."))
  | none => match pathConflict keys with
    | some (key, other) => .error (.writeError ("Updating the path '" ++ other ++
        "' would create a conflict at '" ++ key ++ "'"))
    | none => .ok ()

/-- A key without a dot that passed the check is the name of a field. -/
theorem plain_of_checkPaths {keys : List String} {key : String} (h : checkPaths keys = .ok ())
    (hkey : key ∈ keys) (hdot : '.' ∉ key.toList) : PlainKey key := by
  rw [checkPaths] at h
  split at h
  · cases h
  rename_i hfind
  have hok : pathOk (pathOf key) = true := by
    simpa using List.find?_eq_none.1 hfind key hkey
  rw [pathOk, pathOf_of_plain hdot, List.all_cons, List.all_nil, Bool.and_true, List.headD_cons,
    componentOk, Bool.and_eq_true, Bool.and_eq_true, Bool.or_eq_true, bne_iff_ne, bne_iff_ne,
    bne_iff_ne, beq_iff_eq] at hok
  exact ⟨hok.1.1, hdot, hok.1.2.resolve_right hok.2⟩

/-- Two keys of an update that passed the check and start at the same root are both longer than
that root, unless they are the same key. -/
theorem eq_of_rootOf_eq_of_checkPaths {keys : List String} (h : checkPaths keys = .ok ())
    {key other : String} (hkey : key ∈ keys) (hother : other ∈ keys)
    (hdot : '.' ∉ key.toList) (hroot : rootOf other = key) : other = key := by
  by_contra hne
  rw [checkPaths] at h
  split at h
  · cases h
  split at h
  · cases h
  rename_i hnone
  rw [pathConflict, List.findSome?_eq_none_iff] at hnone
  have hfind := hnone key hkey
  rw [Option.map_eq_none_iff, List.find?_eq_none] at hfind
  have hpre : pathOf key <+: pathOf other := by
    rw [pathOf_of_plain hdot, pathOf_eq_cons other, hroot]
    exact ⟨(pathOf other).tail, rfl⟩
  refine hfind other hother ?_
  simp only [Bool.and_eq_true, bne_iff_ne, ne_eq, List.isPrefixOf_iff_prefix]
  exact ⟨fun heq ↦ hne heq.symm, hpre⟩

/-- Plain names always pass the check. -/
theorem checkPaths_of_plain {keys : List String} (h : ∀ key ∈ keys, PlainKey key) :
    checkPaths keys = .ok () := by
  have hok : keys.find? (fun key ↦ !pathOk (pathOf key)) = none := by
    rw [List.find?_eq_none]
    intro key hkey
    obtain ⟨hne, hdot, hdollar⟩ := h key hkey
    have hhead : key ≠ "$[]" := fun heq ↦ hdollar (by rw [heq]; rfl)
    simp [pathOk, pathOf_of_plain hdot, componentOk, hne, hdollar, hhead]
  have hconflict : pathConflict keys = none := by
    rw [pathConflict, List.findSome?_eq_none_iff]
    intro key hkey
    rw [Option.map_eq_none_iff, List.find?_eq_none]
    intro other hother
    rw [pathOf_of_plain (h key hkey).2.1, pathOf_of_plain (h other hother).2.1]
    simp [List.isPrefixOf]
  rw [checkPaths, hok, hconflict]

/-! ## Writing at a path -/

/-- The array index a component stands for. -/
def arrayIndex (c : String) : Option Nat :=
  if c.toList.all (charRange '0' '9') && (c == "0" || c.toList.head? != some '0') then c.toNat?
  else none

/-- How far an update may pad an array with nulls. -/
def maxPadding : Nat := 1500000

/-- Replace the field of that name, or add it at the end. -/
def setField (c : String) (v : Value) : List (String × Value) → List (String × Value)
  | [] => [(c, v)]
  | (k, w) :: ps => if k = c then (c, v) :: ps else (k, w) :: setField c v ps

/-- The value a container holds after `v` has been written at a path below it.  `cur` is what is
there now, if anything. -/
def setPath (v : Value) : List String → Option Value → Except PyErr Value
  | [], _ => .ok v
  | c :: cs, none => do .ok (.dict [(c, ← setPath v cs none)])
  | c :: cs, some (.dict fields) => do
    .ok (Value.decodeFields (setField c (← setPath v cs (fields.lookup c)) fields))
  | c :: cs, some (.dbRef collection id database extra) => do
    let fields := Value.asDoc collection id database extra
    .ok (Value.decodeFields (setField c (← setPath v cs (fields.lookup c)) fields))
  | c :: cs, some (.list xs) =>
    if c = "$[]" then do .ok (.list (← xs.mapM fun x ↦ setPath v cs (some x)))
    else match arrayIndex c with
      | none => .error (.writeError ("Cannot create field '" ++ c ++ "' in an array"))
      | some i =>
        if xs.length + maxPadding < i then
          .error (.writeError "can't backfill more than 1500000 elements")
        else do
          let w ← setPath v cs xs[i]?
          .ok (.list ((xs ++ List.replicate (i + 1 - xs.length) Value.null).set i w))
  | c :: _, some _ => .error (.writeError ("Cannot create field '" ++ c ++ "' in a scalar"))

/-- Whether a value has components of its own. -/
def Value.isContainer : Value → Bool
  | .dict _ | .list _ | .dbRef .. => true
  | _ => false

/-- Whether a value is an embedded document. -/
def Value.isEmbedded : Value → Bool
  | .dict _ | .dbRef .. => true
  | _ => false

theorem isContainer_of_isEmbedded {v : Value} (h : v.isEmbedded = true) : v.isContainer = true := by
  cases v <;> first | rfl | cases h

/-- A sub-document is an embedded document, however the driver reads it. -/
theorem isEmbedded_decodeFields (fields : List (String × Value)) :
    (Value.decodeFields fields).isEmbedded = true := by
  rw [Value.decodeFields]
  split <;> rfl

/-- Writing below a value leaves a container there. -/
theorem isContainer_of_setPath {v w : Value} {c : String} {cs : List String} {cur : Option Value}
    (h : setPath v (c :: cs) cur = .ok w) : w.isContainer = true := by
  rcases cur with _ | ⟨_ | _ | _ | _ | _ | _ | _ | xs | fields | _⟩
  case none =>
    obtain ⟨u, -, hw⟩ := bind_eq_ok.1 h
    cases hw
    rfl
  case some.dict | some.dbRef =>
    obtain ⟨u, -, hw⟩ := bind_eq_ok.1 h
    cases hw
    exact isContainer_of_isEmbedded (isEmbedded_decodeFields _)
  case some.list =>
    rw [setPath] at h
    split at h
    · obtain ⟨u, -, hw⟩ := bind_eq_ok.1 h
      cases hw
      rfl
    split at h
    · cases h
    split at h
    · cases h
    · obtain ⟨u, -, hw⟩ := bind_eq_ok.1 h
      cases hw
      rfl
  all_goals cases h

/-! ## Applying an update -/

/-- Write one field of an update into a document. -/
def setAt (d : Doc) (field : String × Value) : Except PyErr Doc := do
  let w ← setPath field.2 (pathOf field.1).tail d[rootOf field.1]?
  return d.insert (rootOf field.1) w

/-- The document after `{"$set": set}`. -/
def applySet (set d : Doc) : Except PyErr Doc := do
  checkPaths set.keys
  set.toList.foldlM setAt d

theorem mem_of_mem_toList {d : Doc} {field : String × Value} (h : field ∈ d.toList) :
    field.1 ∈ d := by
  rw [Std.ExtTreeMap.mem_iff_isSome_getElem?,
    Std.ExtTreeMap.mem_toList_iff_getElem?_eq_some.1 h, Option.isSome_some]

theorem getElem?_setAt_of_ne {d d' : Doc} {field : String × Value} {k : String}
    (h : setAt d field = .ok d') (hk : rootOf field.1 ≠ k) : d'[k]? = d[k]? := by
  obtain ⟨w, -, hd⟩ := bind_eq_ok.1 h
  cases hd
  rw [Doc.getElem?_insert, if_neg (Ne.symm hk)]

theorem getElem?_setAt_root {d d' : Doc} {field : String × Value} (h : setAt d field = .ok d') :
    ∃ w, setPath field.2 (pathOf field.1).tail d[rootOf field.1]? = .ok w ∧
      d'[rootOf field.1]? = some w := by
  obtain ⟨w, hw, hd⟩ := bind_eq_ok.1 h
  cases hd
  exact ⟨w, hw, Std.ExtTreeMap.getElem?_insert_self⟩

theorem getElem?_foldlM_setAt_of_untouched {fields : List (String × Value)} {d d' : Doc}
    {k : String} (h : fields.foldlM setAt d = .ok d')
    (hk : ∀ field ∈ fields, rootOf field.1 ≠ k) : d'[k]? = d[k]? := by
  induction fields generalizing d with
  | nil => cases h; rfl
  | cons field fields ih =>
    rw [List.foldlM_cons] at h
    obtain ⟨e, he, hd⟩ := bind_eq_ok.1 h
    rw [ih hd fun f hf ↦ hk f (List.mem_cons_of_mem _ hf)]
    exact getElem?_setAt_of_ne he (hk field (List.mem_cons_self ..))

/-- **An update leaves every field alone that is not the root of one of its paths.** -/
theorem getElem?_applySet_of_untouched {set d d' : Doc} {k : String}
    (h : applySet set d = .ok d') (hk : ∀ key ∈ set, rootOf key ≠ k) : d'[k]? = d[k]? := by
  obtain ⟨_, _, hd⟩ := bind_eq_ok.1 h
  refine getElem?_foldlM_setAt_of_untouched hd fun field hfield ↦ hk field.1 ?_
  exact mem_of_mem_toList hfield

/-- The paths of an update that was applied have passed the check. -/
theorem checkPaths_of_applySet {set d d' : Doc} (h : applySet set d = .ok d') :
    checkPaths set.keys = .ok () := by
  obtain ⟨_, hcheck, _⟩ := bind_eq_ok.1 h
  exact hcheck

theorem isContainer_foldlM_setAt {fields : List (String × Value)} {d d' : Doc} {k : String}
    (h : fields.foldlM setAt d = .ok d')
    (hdot : ∀ field ∈ fields, rootOf field.1 = k → (pathOf field.1).tail ≠ [])
    (htouched : (∃ field ∈ fields, rootOf field.1 = k) ∨
      ∃ w, d[k]? = some w ∧ w.isContainer = true) :
    ∃ w, d'[k]? = some w ∧ w.isContainer = true := by
  induction fields generalizing d with
  | nil =>
    cases h
    simpa using htouched
  | cons field fields ih =>
    rw [List.foldlM_cons] at h
    obtain ⟨e, he, hd⟩ := bind_eq_ok.1 h
    refine ih hd (fun f hf ↦ hdot f (List.mem_cons_of_mem _ hf)) ?_
    by_cases hroot : rootOf field.1 = k
    · subst hroot
      obtain ⟨w, hw, hget⟩ := getElem?_setAt_root he
      refine .inr ⟨w, hget, ?_⟩
      cases htail : (pathOf field.1).tail with
      | nil => exact absurd htail (hdot field (List.mem_cons_self ..) rfl)
      | cons c cs =>
        rw [htail] at hw
        exact isContainer_of_setPath hw
    · obtain ⟨f, hf, hfk⟩ | hcontainer := htouched
      · obtain rfl | hf := List.mem_cons.1 hf
        · exact absurd hfk hroot
        · exact .inl ⟨f, hf, hfk⟩
      · right
        rwa [getElem?_setAt_of_ne he hroot]

/-- In an update that passed the check, a key other than its root stands for that root alone. -/
theorem rootOf_notMem_of_checkPaths {set : Doc} (h : checkPaths set.keys = .ok ()) {key : String}
    (hkey : key ∈ set) (hroot : rootOf key ≠ key) : rootOf key ∉ set := fun hmem ↦
  hroot (eq_of_rootOf_eq_of_checkPaths h (Std.ExtTreeMap.mem_keys.2 hmem)
    (Std.ExtTreeMap.mem_keys.2 hkey) (dot_notMem_rootOf key) rfl).symm

/-- A root that an update writes through a longer path ends up as a container. -/
theorem applySet_container {set d d' : Doc} {key : String} (h : applySet set d = .ok d')
    (hkey : key ∈ set) (hroot : rootOf key ≠ key) :
    ∃ w, d'[rootOf key]? = some w ∧ w.isContainer = true := by
  have hnot := rootOf_notMem_of_checkPaths (checkPaths_of_applySet h) hkey hroot
  obtain ⟨_, _, hd⟩ := bind_eq_ok.1 h
  refine isContainer_foldlM_setAt hd (fun field hfield heq htail ↦ ?_)
    (.inl ⟨(key, set[key]), ?_, rfl⟩)
  · refine hnot ?_
    rw [← heq, rootOf_eq_of_tail_eq_nil htail]
    exact mem_of_mem_toList hfield
  · rw [Std.ExtTreeMap.mem_toList_iff_getElem?_eq_some]
    exact Std.ExtTreeMap.getElem?_eq_some_getElem hkey

/-- **A field that an update writes under its plain name gets the value given.** -/
theorem getElem?_applySet_plain {set d d' : Doc} {key : String} (h : applySet set d = .ok d')
    (hplain : PlainKey key) (hkey : key ∈ set) : d'[key]? = set[key]? := by
  have hcheck := checkPaths_of_applySet h
  obtain ⟨_, _, hd⟩ := bind_eq_ok.1 h
  have hget := Std.ExtTreeMap.getElem?_eq_some_getElem hkey
  obtain ⟨before, later, hsplit⟩ :=
    List.append_of_mem (Std.ExtTreeMap.mem_toList_iff_getElem?_eq_some.2 hget)
  -- The keys of the update are distinct, so the fields after this one have other roots.
  have hdistinct := Std.ExtTreeMap.distinct_keys_toList (t := set)
  rw [hsplit, List.pairwise_append] at hdistinct
  have hlater : ∀ field ∈ later, rootOf field.1 ≠ key := fun field hfield heq ↦ by
    have hne := (List.pairwise_cons.1 hdistinct.2.1).1 field hfield
    refine hne ?_
    have hmem : field ∈ set.toList := by simp [hsplit, hfield]
    rw [eq_of_rootOf_eq_of_checkPaths hcheck (Std.ExtTreeMap.mem_keys.2 hkey)
      (Std.ExtTreeMap.mem_keys.2 (mem_of_mem_toList hmem)) hplain.2.1 heq]
    exact Std.ReflCmp.compare_self
  rw [hsplit, List.foldlM_append] at hd
  obtain ⟨e, -, hd⟩ := bind_eq_ok.1 hd
  rw [List.foldlM_cons] at hd
  obtain ⟨e', he', hd⟩ := bind_eq_ok.1 hd
  obtain ⟨w, hw, hroot⟩ := getElem?_setAt_root he'
  rw [pathOf_of_plain hplain.2.1] at hw
  rw [rootOf_of_plain hplain] at hroot
  rw [getElem?_foldlM_setAt_of_untouched hd hlater, hroot, hget]
  cases hw
  rfl

theorem eq_of_foldlM_setAt_scalar {fields : List (String × Value)} {d d' : Doc} {k : String}
    {v : Value} (h : fields.foldlM setAt d = .ok d') (hv : d[k]? = some v)
    (hscalar : v.isContainer = false) : ∀ field ∈ fields, rootOf field.1 = k →
      (∀ f ∈ fields, rootOf f.1 = k → (pathOf f.1).tail ≠ []) → False := by
  induction fields generalizing d with
  | nil => exact fun _ h ↦ absurd h List.not_mem_nil
  | cons head fields ih =>
    intro field hfield hroot hdot
    rw [List.foldlM_cons] at h
    obtain ⟨e, he, hd⟩ := bind_eq_ok.1 h
    by_cases hhead : rootOf head.1 = k
    · obtain ⟨w, hw, -⟩ := getElem?_setAt_root he
      rw [hhead, hv] at hw
      cases htail : (pathOf head.1).tail with
      | nil => exact hdot head (List.mem_cons_self ..) hhead htail
      | cons c cs =>
        rw [htail] at hw
        cases v with
        | list _ | dict _ | dbRef _ _ _ _ => cases hscalar
        | _ => cases hw
    · obtain rfl | hfield := List.mem_cons.1 hfield
      · exact hhead hroot
      refine ih hd ((getElem?_setAt_of_ne he hhead).trans hv) field hfield hroot fun f hf ↦ ?_
      exact hdot f (List.mem_cons_of_mem _ hf)

/-- An update that leads into a value without components is refused. -/
theorem eq_of_applySet_scalar {set d d' : Doc} {k key : String} {v : Value}
    (h : applySet set d = .ok d') (hv : d[k]? = some v) (hscalar : v.isContainer = false)
    (hkey : key ∈ set) (hroot : rootOf key = k) : key = k := by
  by_contra hne
  have hnot := rootOf_notMem_of_checkPaths (checkPaths_of_applySet h) hkey
    fun heq ↦ hne (heq ▸ hroot)
  obtain ⟨_, _, hd⟩ := bind_eq_ok.1 h
  refine eq_of_foldlM_setAt_scalar hd hv hscalar (key, set[key]) ?_ hroot fun f hf hfroot htail ↦ ?_
  · rw [Std.ExtTreeMap.mem_toList_iff_getElem?_eq_some]
    exact Std.ExtTreeMap.getElem?_eq_some_getElem hkey
  · rw [hroot, ← hfroot, rootOf_eq_of_tail_eq_nil htail] at hnot
    exact hnot (mem_of_mem_toList hf)

theorem exists_foldlM_setAt_of_plain {fields : List (String × Value)} (d : Doc)
    (h : ∀ field ∈ fields, PlainKey field.1) : ∃ d', fields.foldlM setAt d = .ok d' := by
  induction fields generalizing d with
  | nil => exact ⟨d, rfl⟩
  | cons field fields ih =>
    have hfield : setAt d field = .ok (d.insert field.1 field.2) := by
      rw [setAt, pathOf_of_plain (h field (List.mem_cons_self ..)).2.1,
        rootOf_of_plain (h field (List.mem_cons_self ..))]
      rfl
    obtain ⟨d', hd'⟩ := ih (d.insert field.1 field.2) fun f hf ↦ h f (List.mem_cons_of_mem _ hf)
    exact ⟨d', by rw [List.foldlM_cons, hfield]; exact hd'⟩

/-- Writing below an embedded document leaves an embedded document there. -/
theorem isEmbedded_of_setPath {v w x : Value} {c : String} {cs : List String}
    (hx : x.isEmbedded = true) (h : setPath v (c :: cs) (some x) = .ok w) :
    w.isEmbedded = true := by
  cases x with
  | dict fields =>
    obtain ⟨u, -, hw⟩ := bind_eq_ok.1 h
    cases hw
    exact isEmbedded_decodeFields _
  | dbRef collection id database extra =>
    obtain ⟨u, -, hw⟩ := bind_eq_ok.1 h
    cases hw
    exact isEmbedded_decodeFields _
  | _ => cases hx

/-- An update that does not replace an embedded document as a whole leaves one there. -/
theorem isEmbedded_of_applySet {set d d' : Doc} {k : String} (h : applySet set d = .ok d')
    (hk : k ∉ set) (hd : ∃ x, d[k]? = some x ∧ x.isEmbedded = true) :
    ∃ x, d'[k]? = some x ∧ x.isEmbedded = true := by
  obtain ⟨_, hcheck, hfold⟩ := bind_eq_ok.1 h
  refine foldlM_invariant (fun d ↦ ∃ x, d[k]? = some x ∧ x.isEmbedded = true)
    (fun field hfield e e' he hembedded ↦ ?_) hfold hd
  by_cases hroot : rootOf field.1 = k
  · obtain ⟨x, hx, hxe⟩ := hembedded
    obtain ⟨w, hw, hw'⟩ := getElem?_setAt_root he
    rw [hroot] at hw hw'
    rw [hx] at hw
    cases htail : (pathOf field.1).tail with
    | nil =>
      refine absurd (mem_of_mem_toList hfield) ?_
      rwa [← rootOf_eq_of_tail_eq_nil htail, hroot]
    | cons c cs =>
      rw [htail] at hw
      exact ⟨w, hw', isEmbedded_of_setPath hxe hw⟩
  · rwa [getElem?_setAt_of_ne he hroot]

/-- **Plain names**: an update all of whose names are plain is `dict.update`, and cannot fail. -/
theorem applySet_of_plain {set : Doc} (h : ∀ key ∈ set, PlainKey key) (d : Doc) :
    applySet set d = .ok (d ∪ set) := by
  obtain ⟨d', hd'⟩ := exists_foldlM_setAt_of_plain d fun field hfield ↦
    h field.1 (mem_of_mem_toList hfield)
  have happly : applySet set d = .ok d' := by
    rw [applySet, checkPaths_of_plain fun key hkey ↦ h key (Std.ExtTreeMap.mem_keys.1 hkey)]
    exact hd'
  rw [happly, Except.ok.injEq]
  refine Std.ExtTreeMap.ext_getElem? fun k ↦ ?_
  rw [Doc.getElem?_update]
  by_cases hk : k ∈ set
  · rw [getElem?_applySet_plain happly (h k hk) hk, Std.ExtTreeMap.getElem?_eq_some_getElem hk,
      Option.some_or]
  · rw [getElem?_applySet_of_untouched happly fun key hkey heq ↦
        hk (by rwa [← heq, rootOf_of_plain (h key hkey)]),
      Std.ExtTreeMap.getElem?_eq_none hk, Option.none_or]

/-- **What a field holds after an update**: what the update says under its plain name, what it held
before, or, if the update leads into it, a container. -/
theorem getElem?_applySet_cases {set d d' : Doc} {key : String} (h : applySet set d = .ok d')
    (hplain : PlainKey key) : d'[key]? = set[key]?.or d[key]? ∨
      key ∉ set ∧ ∃ w, d'[key]? = some w ∧ w.isContainer = true := by
  by_cases hkey : key ∈ set
  · left
    rw [getElem?_applySet_plain h hplain hkey, Std.ExtTreeMap.getElem?_eq_some_getElem hkey,
      Option.some_or]
  by_cases hroot : ∃ other ∈ set, rootOf other = key
  · obtain ⟨other, hother, hroot⟩ := hroot
    refine .inr ⟨hkey, hroot ▸ applySet_container h hother fun heq ↦ hkey ?_⟩
    rwa [← hroot, heq]
  · left
    rw [getElem?_applySet_of_untouched h fun other hother heq ↦ hroot ⟨other, hother, heq⟩,
      Std.ExtTreeMap.getElem?_eq_none hkey, Option.none_or]

/-- A field that no path of an update leads into can only be replaced. -/
theorem getElem?_applySet_of_whole {set d d' : Doc} {key : String} (h : applySet set d = .ok d')
    (hplain : PlainKey key) (hwhole : ∀ other ∈ set, rootOf other = key → other = key) :
    d'[key]? = set[key]?.or d[key]? := by
  by_cases hkey : key ∈ set
  · rw [getElem?_applySet_plain h hplain hkey, Std.ExtTreeMap.getElem?_eq_some_getElem hkey,
      Option.some_or]
  · have huntouched : ∀ other ∈ set, rootOf other ≠ key := fun other hother hroot ↦
      hkey (hwhole other hother hroot ▸ hother)
    rw [getElem?_applySet_of_untouched h huntouched, Std.ExtTreeMap.getElem?_eq_none hkey,
      Option.none_or]

/-- A field without components can only be replaced as a whole. -/
theorem getElem?_applySet_scalar {set d d' : Doc} {key : String} {v : Value}
    (h : applySet set d = .ok d') (hplain : PlainKey key) (hv : d[key]? = some v)
    (hscalar : v.isContainer = false) : d'[key]? = set[key]?.or d[key]? :=
  getElem?_applySet_of_whole h hplain fun _ hother hroot ↦
    eq_of_applySet_scalar h hv hscalar hother hroot

/-- An update takes no field away. -/
theorem mem_applySet_of_mem {set d d' : Doc} {key : String} (h : applySet set d = .ok d')
    (hplain : PlainKey key) (hkey : key ∈ d) : key ∈ d' := by
  rw [Doc.mem_iff_ne_none] at hkey ⊢
  obtain hget | ⟨-, w, hw, -⟩ := getElem?_applySet_cases h hplain
  · rw [hget]
    cases set[key]? with
    | none => rwa [Option.none_or]
    | some v => exact Option.some_ne_none v
  · rw [hw]
    exact Option.some_ne_none w

/-! ## Stored documents -/

/-- Whether a name has no zero byte. -/
def noZero (k : String) : Prop := k.toList.contains (Char.ofNat 0) = false

/-- A document the database returns. -/
def Doc.Stored (d : Doc) : Prop := ∀ (k : String) (v : Value), d[k]? = some v →
  noZero k ∧ v.isStored = true

instance {k : String} : Decidable (noZero k) := inferInstanceAs (Decidable (_ = false))

theorem stored_empty : (∅ : Doc).Stored :=
  fun _ _ h ↦ nomatch Std.ExtTreeMap.getElem?_empty.symm.trans h

theorem stored_insert {d : Doc} {k : String} {v : Value} (h : d.Stored) (hk : noZero k)
    (hv : v.isStored = true) : Doc.Stored (d.insert k v) := by
  intro j w hw
  rw [Doc.getElem?_insert] at hw
  split at hw
  · rename_i hj
    cases hw
    exact ⟨hj ▸ hk, hv⟩
  · exact h j w hw

theorem noZero_of_mem_pathOf {key c : String} (h : noZero key) (hc : c ∈ pathOf key) :
    noZero c := by
  obtain ⟨p, hp, rfl⟩ := List.mem_map.1 hc
  rw [noZero, List.contains_eq_mem, decide_eq_false_iff_not] at h ⊢
  rw [String.toList_ofList]
  exact fun hzero ↦ h (mem_of_mem_splitChars hp hzero)

theorem mem_setField {c k : String} {v w : Value} {ps : List (String × Value)}
    (h : (k, w) ∈ setField c v ps) : (k, w) = (c, v) ∨ (k, w) ∈ ps := by
  induction ps with
  | nil => exact .inl (List.mem_singleton.1 h)
  | cons p ps ih =>
    rw [setField] at h
    split at h
    · exact (List.mem_cons.1 h).imp_right (List.mem_cons_of_mem _)
    · rcases List.mem_cons.1 h with h | h
      · exact .inr (h ▸ List.mem_cons_self ..)
      · exact (ih h).imp_right (List.mem_cons_of_mem _)

theorem mem_of_lookup_eq_some {c : String} {v : Value} {ps : List (String × Value)}
    (h : ps.lookup c = some v) : (c, v) ∈ ps := by
  obtain ⟨l₁, l₂, rfl, -⟩ := List.lookup_eq_some_iff.1 h
  exact List.mem_append_right _ (List.mem_cons_self ..)

theorem isStored_dict {ps : List (String × Value)} (h : (Value.dict ps).isStored = true) :
    ∀ p ∈ ps, noZero p.1 ∧ p.2.isStored = true :=
  Value.isStoredFields_iff.1 (Bool.and_eq_true_iff.1 h).2

/-- The fields under which the driver stores a `DBRef` it has read. -/
theorem isStored_asDoc {collection : String} {id : Value} {database : Option String}
    {extra : List (String × Value)}
    (h : (Value.dbRef collection id database extra).isStored = true) :
    ∀ p ∈ Value.asDoc collection id database extra, noZero p.1 ∧ p.2.isStored = true := by
  rw [Value.isStored, Bool.and_eq_true, Bool.and_eq_true] at h
  exact Value.isStored_of_mem_asDoc h.1.1 (Value.isStoredFields_iff.1 h.1.2)

/-- Writing a field of an embedded document leaves a stored one. -/
theorem isStored_decodeFields_setField {c : String} {u : Value} {ps : List (String × Value)}
    (hps : ∀ p ∈ ps, noZero p.1 ∧ p.2.isStored = true) (hc : noZero c) (hu : u.isStored = true) :
    (Value.decodeFields (setField c u ps)).isStored = true := by
  refine Value.isStored_decodeFields (Value.isStoredFields_iff.2 fun (k, x) hp ↦ ?_)
  rcases mem_setField hp with hp | hp
  · cases hp
    exact ⟨hc, hu⟩
  · exact hps _ hp

theorem isStored_list {xs : List Value} :
    (Value.list xs).isStored = true ↔ ∀ x ∈ xs, x.isStored = true := Value.isStoredList_iff

/-- Writing at a path makes stored values of stored values. -/
theorem isStored_of_setPath {v w : Value} {cs : List String} {cur : Option Value}
    (h : setPath v cs cur = .ok w) (hv : v.isStored = true) (hcs : ∀ c ∈ cs, noZero c)
    (hcur : ∀ x, cur = some x → x.isStored = true) : w.isStored = true := by
  induction cs generalizing cur w with
  | nil =>
    cases h
    exact hv
  | cons c cs ih =>
    obtain ⟨hc, hcs⟩ := List.forall_mem_cons.1 hcs
    rcases cur with _ | ⟨_ | _ | _ | _ | _ | _ | _ | xs | fields | ⟨collection, id, database, extra⟩⟩
    case none =>
      obtain ⟨u, hu, hw⟩ := bind_eq_ok.1 h
      cases hw
      have hstored := ih hu hcs fun _ hx ↦ (nomatch hx)
      refine Bool.and_eq_true_iff.2 ⟨?_, Value.isStoredFields_iff.2 fun p hp ↦ ?_⟩
      · rw [Value.reference_singleton]
        rfl
      · rw [List.mem_singleton.1 hp]
        exact ⟨hc, hstored⟩
    case some.dict =>
      have hfields := isStored_dict (hcur _ rfl)
      obtain ⟨u, hu, hw⟩ := bind_eq_ok.1 h
      cases hw
      exact isStored_decodeFields_setField hfields hc
        (ih hu hcs fun x hx ↦ (hfields (c, x) (mem_of_lookup_eq_some hx)).2)
    case some.dbRef =>
      have hfields := isStored_asDoc (hcur _ rfl)
      obtain ⟨u, hu, hw⟩ := bind_eq_ok.1 h
      cases hw
      exact isStored_decodeFields_setField hfields hc
        (ih hu hcs fun x hx ↦ (hfields (c, x) (mem_of_lookup_eq_some hx)).2)
    case some.list =>
      have hxs := isStored_list.1 (hcur _ rfl)
      rw [setPath] at h
      split at h
      · obtain ⟨u, hu, hw⟩ := bind_eq_ok.1 h
        cases hw
        refine isStored_list.2 fun y hy ↦ ?_
        obtain ⟨x, hx, hxy⟩ := exists_of_mem_mapM hu hy
        exact ih hxy hcs fun _ heq ↦ Option.some.inj heq ▸ hxs x hx
      split at h
      · cases h
      split at h
      · cases h
      · rename_i i _ _
        obtain ⟨u, hu, hw⟩ := bind_eq_ok.1 h
        cases hw
        refine isStored_list.2 fun y hy ↦ ?_
        rcases List.mem_or_eq_of_mem_set hy with hy | rfl
        · rcases List.mem_append.1 hy with hy | hy
          · exact hxs y hy
          · rw [List.eq_of_mem_replicate hy]
            rfl
        · exact ih hu hcs fun x hx ↦ hxs x (List.mem_of_getElem? hx)
    all_goals cases h

/-- **An update of a stored document is a stored document.** -/
theorem stored_applySet {set d d' : Doc} (h : applySet set d = .ok d') (hset : set.Stored)
    (hd : d.Stored) : d'.Stored := by
  obtain ⟨_, -, hfold⟩ := bind_eq_ok.1 h
  refine foldlM_invariant Doc.Stored (fun field hfield d e he hd k v hv ↦ ?_) hfold hd
  obtain ⟨w, hw, heq⟩ := bind_eq_ok.1 he
  cases heq
  obtain ⟨hzero, hstored⟩ := hset field.1 field.2
    (Std.ExtTreeMap.mem_toList_iff_getElem?_eq_some.1 hfield)
  have hpath : ∀ c ∈ pathOf field.1, noZero c := fun c hc ↦ noZero_of_mem_pathOf hzero hc
  rw [pathOf_eq_cons, List.forall_mem_cons] at hpath
  rw [Doc.getElem?_insert] at hv
  split at hv
  · rename_i hk
    cases hv
    exact ⟨hk ▸ hpath.1, isStored_of_setPath hw hstored hpath.2 fun x hx ↦ (hd _ x hx).2⟩
  · exact hd k v hv

end Ollog

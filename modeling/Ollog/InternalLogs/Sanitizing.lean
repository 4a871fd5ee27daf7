import Ollog.Aclog.Identity
import Ollog.Aclog.Parser
import Ollog.Lib.Substitution

/-!
# What an entry of the log may not say

Before something is logged, secrets are taken out of it: what is stored under a key that sounds like
a secret gives way to `***`, at any depth, and so do the user and the password of a MongoDB URI in
any text.

`SameButSecrets` relates two values that differ in their secrets only.  They are logged as the same
entry (`sanitizeLogValue_secrets`), so that no entry tells anything about a secret.
-/

set_option autoImplicit false

namespace Ollog

open OrderedDict Substitution

/-! ## Keys that sound like a secret -/

/-- Two words, with or without a dash or an underscore between them. -/
def separated (first second : String) : List String :=
  [first ++ second, first ++ "_" ++ second, first ++ "-" ++ second]

/-- The words of `_SENSITIVE_KEY_RE`. -/
def sensitiveWords : List String :=
  ["password", "passwd", "pwd", "token"] ++ separated "api" "key" ++
    ["authorization", "secret", "credential", "mongodb_uri"] ++ separated "connection" "string"

/-- `_SENSITIVE_KEY_RE.search(key)`. -/
def isSensitiveKey (key : String) : Bool :=
  key.toList.tails.any fun rest ↦
    sensitiveWords.any fun word ↦ (dropPattern tagFold word.toList rest).isSome

/-! ## The credentials of a URI -/

/-- `_MASK`. -/
def mask : String := "***"

/-- `[^:@/\s]`. -/
def isUserChar (c : Char) : Bool := c != ':' && c != '@' && c != '/' && !isSpace c

/-- `[^@/\s]`. -/
def isPasswordChar (c : Char) : Bool := c != '@' && c != '/' && !isSpace c

/-- `mongodb(?:\+srv)?://`, written out. -/
def mongoSchemes : List (List Char) := ["mongodb+srv://".toList, "mongodb://".toList]

/-- The scheme at the front of a text, and what is behind it. -/
def mongoScheme (text : List Char) : Option (List Char × List Char) :=
  mongoSchemes.findSome? fun scheme ↦ (dropPattern id scheme text).map fun rest ↦ (scheme, rest)

/-- What is behind a run of characters of a class and the character that has to follow it. -/
def behindRun (inClass : Char → Bool) (stop : Char) (text : List Char) : Option (List Char) :=
  match text.takeWhile inClass, text.dropWhile inClass with
  | _ :: _, c :: rest => if c = stop then some rest else none
  | _, _ => none

/-- `_MONGO_CREDENTIAL_RE` at the front of a text: what `\1***:***@` makes of the match, and what is
behind it. -/
def mongoCredential (text : List Char) : Option (List Char × List Char) := do
  let (scheme, rest) ← mongoScheme text
  let rest ← behindRun isUserChar ':' rest
  let rest ← behindRun isPasswordChar '@' rest
  some (scheme ++ (mask ++ ":" ++ mask ++ "@").toList, rest)

/-- The two parts of a URI that are masked. -/
structure Credentials (user password : List Char) : Prop where
  user_ne_nil : user ≠ []
  user_chars : ∀ c ∈ user, isUserChar c = true
  password_ne_nil : password ≠ []
  password_chars : ∀ c ∈ password, isPasswordChar c = true

/-- A text that starts with a URI with credentials. -/
def uriText (scheme user password rest : List Char) : List Char :=
  scheme ++ (user ++ ':' :: (password ++ '@' :: rest))

theorem dropPattern_id_eq_some_iff {pattern text rest : List Char} :
    dropPattern id pattern text = some rest ↔ text = pattern ++ rest := by
  induction pattern generalizing text with
  | nil => exact ⟨fun h ↦ Option.some.inj h, fun h ↦ congrArg some h⟩
  | cons p pattern ih =>
    cases text with
    | nil => exact ⟨fun h ↦ (by cases h), fun h ↦ (by cases h)⟩
    | cons c text =>
      rw [dropPattern, List.cons_append, List.cons.injEq]
      split
      · rename_i hc
        exact ih.trans ⟨fun h ↦ ⟨hc.symm, h⟩, And.right⟩
      · rename_i hc
        exact ⟨fun h ↦ (by cases h), fun h ↦ absurd h.1.symm hc⟩

/-- No scheme is the front of another one, since the other one goes on differently. -/
theorem scheme_unique {scheme scheme' rest rest' : List Char} (h : scheme ∈ mongoSchemes)
    (h' : scheme' ∈ mongoSchemes) (heq : scheme ++ rest = scheme' ++ rest') :
    scheme = scheme' ∧ rest = rest' := by
  have hfront : ∀ scheme ∈ mongoSchemes, ∀ scheme' ∈ mongoSchemes, scheme <+: scheme' →
      scheme = scheme' := by
    decide
  have hsame : scheme = scheme' := by
    obtain ⟨mid, hmid, -⟩ | ⟨mid, hmid, -⟩ := List.append_eq_append_iff.1 heq
    · exact hfront _ h _ h' ⟨mid, hmid.symm⟩
    · exact (hfront _ h' _ h ⟨mid, hmid.symm⟩).symm
  subst hsame
  exact ⟨rfl, List.append_cancel_left heq⟩

theorem mongoScheme_eq_some_iff {text scheme rest : List Char} :
    mongoScheme text = some (scheme, rest) ↔ scheme ∈ mongoSchemes ∧ text = scheme ++ rest := by
  constructor
  · intro h
    obtain ⟨scheme', hscheme', hfound⟩ := List.exists_of_findSome?_eq_some h
    obtain ⟨rest', hdrop, heq⟩ := Option.map_eq_some_iff.1 hfound
    obtain ⟨rfl, rfl⟩ := Prod.mk.inj heq
    exact ⟨hscheme', dropPattern_id_eq_some_iff.1 hdrop⟩
  · rintro ⟨hscheme, rfl⟩
    cases hfound : mongoScheme (scheme ++ rest) with
    | none =>
      have hnone := List.findSome?_eq_none_iff.1 hfound scheme hscheme
      rw [dropPattern_id_eq_some_iff.2 rfl] at hnone
      cases hnone
    | some found =>
      obtain ⟨scheme', hscheme', hfound⟩ := List.exists_of_findSome?_eq_some hfound
      obtain ⟨rest', hdrop, rfl⟩ := Option.map_eq_some_iff.1 hfound
      obtain ⟨rfl, rfl⟩ := scheme_unique hscheme hscheme' (dropPattern_id_eq_some_iff.1 hdrop)
      rfl

theorem behindRun_eq_some_iff {inClass : Char → Bool} {stop : Char} (hstop : inClass stop = false)
    {text rest : List Char} : behindRun inClass stop text = some rest ↔
      ∃ run, run ≠ [] ∧ (∀ c ∈ run, inClass c = true) ∧ text = run ++ stop :: rest := by
  constructor
  · intro h
    rw [behindRun] at h
    split at h
    · rename_i c run d behind hrun hbehind
      split at h
      · rename_i hd
        obtain rfl := Option.some.inj h
        subst hd
        refine ⟨c :: run, List.cons_ne_nil _ _, fun c hc ↦ ?_, ?_⟩
        · exact List.mem_takeWhile_imp (hrun ▸ hc)
        · rw [← hrun, ← hbehind, List.takeWhile_append_dropWhile]
      · cases h
    · cases h
  · rintro ⟨run, hne, hrun, rfl⟩
    obtain ⟨c, run, rfl⟩ := List.exists_cons_of_ne_nil hne
    rw [behindRun, List.takeWhile_append_of_pos hrun, List.dropWhile_append_of_pos hrun,
      List.takeWhile_cons_of_neg (by simp [hstop]), List.dropWhile_cons_of_neg (by simp [hstop]),
      List.append_nil]
    exact if_pos rfl

/-- **What a match is**: a scheme, a user and a password. -/
theorem mongoCredential_eq_some_iff {text replacement rest : List Char} :
    mongoCredential text = some (replacement, rest) ↔
      ∃ scheme ∈ mongoSchemes, ∃ user password, Credentials user password ∧
        text = uriText scheme user password rest ∧
        replacement = scheme ++ (mask ++ ":" ++ mask ++ "@").toList := by
  have hcolon : isUserChar ':' = false := by decide
  have hat : isPasswordChar '@' = false := by decide
  simp only [mongoCredential, Option.bind_eq_bind, Option.bind_eq_some_iff, Prod.exists,
    mongoScheme_eq_some_iff, behindRun_eq_some_iff hcolon, behindRun_eq_some_iff hat,
    Option.some.injEq, Prod.mk.injEq]
  constructor
  · rintro ⟨scheme, _, ⟨hscheme, rfl⟩, _, ⟨user, huser, huserChars, rfl⟩, _,
      ⟨password, hpassword, hpasswordChars, rfl⟩, rfl, rfl⟩
    exact ⟨scheme, hscheme, user, password, ⟨huser, huserChars, hpassword, hpasswordChars⟩, rfl,
      rfl⟩
  · rintro ⟨scheme, hscheme, user, password, hcredentials, rfl, rfl⟩
    exact ⟨scheme, _, ⟨hscheme, rfl⟩, _, ⟨user, hcredentials.user_ne_nil, hcredentials.user_chars,
      rfl⟩, _, ⟨password, hcredentials.password_ne_nil, hcredentials.password_chars, rfl⟩, rfl, rfl⟩

theorem length_uriText (scheme user password rest : List Char) :
    (uriText scheme user password rest).length =
      scheme.length + user.length + password.length + 2 + rest.length := by
  simp only [uriText, List.length_append, List.length_cons]
  omega

/-- The substitution that takes credentials out of a text. -/
def credentialRule : Rule Char where
  apply := mongoCredential
  shorter h := by
    obtain ⟨scheme, -, user, password, -, rfl, -⟩ := mongoCredential_eq_some_iff.1 h
    rw [length_uriText]
    omega

/-- `_MONGO_CREDENTIAL_RE.sub(r"\1***:***@", text)`. -/
def maskCredentials (text : String) : String := String.ofList (sub credentialRule text.toList)

/-! ## Texts that differ in credentials only -/

/-- Two texts that are the same but for the users and the passwords of their URIs. -/
inductive SameButCredentials : List Char → List Char → Prop where
  | nil : SameButCredentials [] []
  | cons (c : Char) {text text' : List Char} (h : SameButCredentials text text') :
      SameButCredentials (c :: text) (c :: text')
  | uri {scheme user password user' password' rest rest' : List Char}
      (hscheme : scheme ∈ mongoSchemes) (hcredentials : Credentials user password)
      (hcredentials' : Credentials user' password') (h : SameButCredentials rest rest') :
      SameButCredentials (uriText scheme user password rest) (uriText scheme user' password' rest')

namespace SameButCredentials

theorem refl (text : List Char) : SameButCredentials text text := by
  induction text with
  | nil => exact .nil
  | cons c text ih => exact .cons c ih

theorem symm {text text' : List Char} (h : SameButCredentials text text') :
    SameButCredentials text' text := by
  induction h with
  | nil => exact .nil
  | cons c _ ih => exact .cons c ih
  | uri hscheme hcredentials hcredentials' _ ih => exact .uri hscheme hcredentials' hcredentials ih

/-- Every scheme starts with the only `m` in it, and has slashes but no `@`. -/
theorem scheme_spec {scheme : List Char} (h : scheme ∈ mongoSchemes) :
    (∃ tail, scheme = 'm' :: tail ∧ 'm' ∉ tail) ∧ '/' ∈ scheme ∧ '@' ∉ scheme := by
  rw [mongoSchemes, List.mem_pair] at h
  obtain rfl | rfl := h
  · exact ⟨⟨_, rfl, by decide⟩, by decide, by decide⟩
  · exact ⟨⟨_, rfl, by decide⟩, by decide, by decide⟩

theorem tail_of_cons {c : Char} (hc : c ≠ 'm') {text text' : List Char}
    (h : SameButCredentials (c :: text) text') :
    ∃ rest', text' = c :: rest' ∧ SameButCredentials text rest' := by
  generalize hcons : c :: text = whole at h
  cases h with
  | nil => cases hcons
  | cons d h =>
    cases hcons
    exact ⟨_, rfl, h⟩
  | uri hscheme _ _ _ =>
    obtain ⟨⟨tail, rfl, -⟩, -⟩ := scheme_spec hscheme
    cases hcons
    exact absurd rfl hc

/-- No URI starts where there is no `m`. -/
theorem exists_of_append {front rest text' : List Char} (hfront : 'm' ∉ front)
    (h : SameButCredentials (front ++ rest) text') :
    ∃ rest', text' = front ++ rest' ∧ SameButCredentials rest rest' := by
  induction front generalizing text' with
  | nil => exact ⟨text', rfl, h⟩
  | cons c front ih =>
    rw [List.mem_cons, not_or] at hfront
    obtain ⟨tail', rfl, htail⟩ := tail_of_cons (fun hc ↦ hfront.1 hc.symm) h
    obtain ⟨rest', rfl, hrest⟩ := ih hfront.2 htail
    exact ⟨rest', rfl, hrest⟩

/-- Before an `@` that comes before any slash, no URI starts. -/
theorem exists_of_append_at {front rest text' : List Char} (hfront : '/' ∉ front)
    (h : SameButCredentials (front ++ '@' :: rest) text') :
    ∃ rest', text' = front ++ '@' :: rest' ∧ SameButCredentials rest rest' := by
  generalize hwhole : front ++ '@' :: rest = whole at h
  induction h generalizing front with
  | nil => exact absurd hwhole (by simp)
  | cons c h ih =>
    cases front with
    | nil =>
      cases hwhole
      exact ⟨_, rfl, h⟩
    | cons d front =>
      obtain ⟨rfl, htail⟩ := List.cons.inj hwhole
      obtain ⟨rest', rfl, hrest⟩ := ih (fun hmem ↦ hfront (List.mem_cons_of_mem _ hmem)) htail
      exact ⟨rest', rfl, hrest⟩
  | uri hscheme _ _ _ _ =>
    obtain ⟨-, hslash, hat⟩ := scheme_spec hscheme
    obtain ⟨mid, rfl, hmid⟩ | ⟨mid, rfl, -⟩ := List.append_eq_append_iff.1 hwhole
    · cases mid with
      | nil => exact absurd (List.append_nil front ▸ hslash) hfront
      | cons c mid =>
        obtain ⟨rfl, -⟩ := List.cons.inj hmid
        exact absurd (List.mem_append_right _ (List.mem_cons_self ..)) hat
    · exact absurd (List.mem_append_left _ hslash) hfront

/-- **A match in one text is a match in the other**, and gives way to the same. -/
theorem mongoCredential_eq_some {text text' replacement rest : List Char}
    (h : SameButCredentials text text') (hmatch : mongoCredential text = some (replacement, rest)) :
    ∃ rest', mongoCredential text' = some (replacement, rest') ∧ SameButCredentials rest rest' := by
  obtain ⟨scheme, hscheme, user, password, hcredentials, rfl, rfl⟩ :=
    mongoCredential_eq_some_iff.1 hmatch
  obtain ⟨⟨tail, rfl, htail⟩, -⟩ := scheme_spec hscheme
  generalize hwhole : uriText ('m' :: tail) user password rest = whole at h
  cases h with
  | nil => cases hwhole
  | cons c h =>
    -- The scheme is followed by the same characters up to the `@`.
    cases hwhole
    obtain ⟨behind, rfl, hbehind⟩ := exists_of_append htail h
    have hslash : '/' ∉ user ++ ':' :: password := by
      intro hmem
      obtain hmem | hmem := List.mem_append.1 hmem
      · exact absurd (hcredentials.user_chars _ hmem) (by decide)
      obtain hmem | hmem := List.mem_cons.1 hmem
      · exact absurd hmem (by decide)
      · exact absurd (hcredentials.password_chars _ hmem) (by decide)
    rw [show user ++ ':' :: (password ++ '@' :: rest) = user ++ ':' :: password ++ '@' :: rest by
      rw [List.append_assoc, List.cons_append]] at hbehind
    obtain ⟨rest', rfl, hrest⟩ := exists_of_append_at hslash hbehind
    refine ⟨rest', mongoCredential_eq_some_iff.2 ⟨_, hscheme, user, password, hcredentials, ?_,
      rfl⟩, hrest⟩
    rw [uriText, List.append_assoc, List.cons_append, List.cons_append]
  | @uri scheme' user₁ password₁ user₂ password₂ rest₁ rest₂ hscheme' h₁ h₂ h =>
    -- The same URI is found in the first text.
    have hsame := hmatch.symm.trans (hwhole ▸ mongoCredential_eq_some_iff.2
      ⟨scheme', hscheme', user₁, password₁, h₁, rfl, rfl⟩)
    obtain ⟨hreplacement, rfl⟩ := Prod.mk.inj (Option.some.inj hsame)
    exact ⟨rest₂, mongoCredential_eq_some_iff.2 ⟨scheme', hscheme', user₂, password₂, h₂, rfl,
      hreplacement⟩, h⟩

theorem lockstep {text text' : List Char} (h : SameButCredentials text text') :
    Lockstep credentialRule SameButCredentials text text' := by
  cases hmatch : mongoCredential text with
  | some found =>
    obtain ⟨rest', hmatch', hrest⟩ := h.mongoCredential_eq_some hmatch
    exact .replace hmatch hmatch' hrest
  | none =>
    have hmatch' : mongoCredential text' = none := by
      cases hfound : mongoCredential text' with
      | none => rfl
      | some found =>
        obtain ⟨rest, hsome, -⟩ := h.symm.mongoCredential_eq_some hfound
        cases hmatch.symm.trans hsome
    cases h with
    | nil => exact .nil
    | cons c h => exact .keep hmatch hmatch' h
    | uri hscheme hcredentials _ _ =>
      cases hmatch.symm.trans
        (mongoCredential_eq_some_iff.2 ⟨_, hscheme, _, _, hcredentials, rfl, rfl⟩)

/-- What is masked differs from the text in credentials only. -/
theorem sub_credentialRule (text : List Char) :
    SameButCredentials text (sub credentialRule text) := by
  refine sub_induction .nil (fun c text _ h ↦ .cons c h) (fun text _ rest hmatch h ↦ ?_) text
  obtain ⟨scheme, hscheme, user, password, hcredentials, rfl, rfl⟩ :=
    mongoCredential_eq_some_iff.1 hmatch
  have hmask : Credentials mask.toList mask.toList :=
    ⟨by decide, List.all_eq_true.1 (by decide), by decide, List.all_eq_true.1 (by decide)⟩
  rw [List.append_assoc]
  exact .uri hscheme hcredentials hmask h

end SameButCredentials

theorem maskCredentials_eq {text text' : String}
    (h : SameButCredentials text.toList text'.toList) :
    maskCredentials text = maskCredentials text' :=
  congrArg String.ofList (sub_eq_of_lockstep (fun _ _ h ↦ h.lockstep) h)

theorem maskCredentials_maskCredentials (text : String) :
    maskCredentials (maskCredentials text) = maskCredentials text := by
  refine (maskCredentials_eq ?_).symm
  rw [maskCredentials, String.toList_ofList]
  exact .sub_credentialRule text.toList

/-! ## Values -/

/-- A key of a dictionary. -/
inductive LogKey (Obj : Type) where
  | text (s : String)
  | other (o : Obj)

/-- What a caller logs: numbers, `None` and other objects stand next to texts and to what holds
further values. -/
inductive LogValue (Obj : Type) where
  | other (o : Obj)
  | text (s : String)
  | list (items : List (LogValue Obj))
  | tuple (items : List (LogValue Obj))
  | dict (items : List (LogKey Obj × LogValue Obj))

variable {Obj : Type} [PyObject Obj]

/-- `str(key)`. -/
def LogKey.str : LogKey Obj → String
  | text s => s
  | other o => PyObject.str o

omit [PyObject Obj] in
/-- A dictionary whose keys are texts. -/
def LogValue.ofItems (items : OrderedDict String (LogValue Obj)) : LogValue Obj :=
  .dict (items.map fun (key, item) ↦ (.text key, item))

namespace LogValue

mutual
/-- `sanitize_log_value`. -/
def sanitizeLogValue : LogValue Obj → LogValue Obj
  | dict items => ofItems (OrderedDict.ofItems (sanitizeItems items))
  | list items => list (sanitizeList items)
  | tuple items => list (sanitizeList items)
  | text s => text (maskCredentials s)
  | other o => other o

/-- `sanitize_log_value` of every element. -/
def sanitizeList : List (LogValue Obj) → List (LogValue Obj)
  | [] => []
  | item :: items => sanitizeLogValue item :: sanitizeList items

/-- What is set in the new dictionary, one key after the other. -/
def sanitizeItems : List (LogKey Obj × LogValue Obj) → List (String × LogValue Obj)
  | [] => []
  | (key, item) :: items =>
    (key.str, if isSensitiveKey key.str then text mask else sanitizeLogValue item) ::
      sanitizeItems items
end

mutual
/-- Two values that are the same but for what is under keys that sound like a secret, and for the
credentials in their texts. -/
inductive SameButSecrets : LogValue Obj → LogValue Obj → Prop where
  | other (o : Obj) : SameButSecrets (other o) (other o)
  | text {s s' : String} (h : SameButCredentials s.toList s'.toList) :
      SameButSecrets (text s) (text s')
  | list {items items' : List (LogValue Obj)} (h : SameListButSecrets items items') :
      SameButSecrets (list items) (list items')
  | tuple {items items' : List (LogValue Obj)} (h : SameListButSecrets items items') :
      SameButSecrets (tuple items) (tuple items')
  | dict {items items' : List (LogKey Obj × LogValue Obj)} (h : SameItemsButSecrets items items') :
      SameButSecrets (dict items) (dict items')

/-- `SameButSecrets`, element by element. -/
inductive SameListButSecrets : List (LogValue Obj) → List (LogValue Obj) → Prop where
  | nil : SameListButSecrets [] []
  | cons {item item' : LogValue Obj} {items items' : List (LogValue Obj)}
      (h : SameButSecrets item item') (hs : SameListButSecrets items items') :
      SameListButSecrets (item :: items) (item' :: items')

/-- The same keys, with the same values but for secrets. -/
inductive SameItemsButSecrets :
    List (LogKey Obj × LogValue Obj) → List (LogKey Obj × LogValue Obj) → Prop where
  | nil : SameItemsButSecrets [] []
  | secret {key : LogKey Obj} (hkey : isSensitiveKey key.str = true) (item item' : LogValue Obj)
      {items items' : List (LogKey Obj × LogValue Obj)} (hs : SameItemsButSecrets items items') :
      SameItemsButSecrets ((key, item) :: items) ((key, item') :: items')
  | cons (key : LogKey Obj) {item item' : LogValue Obj}
      {items items' : List (LogKey Obj × LogValue Obj)} (h : SameButSecrets item item')
      (hs : SameItemsButSecrets items items') :
      SameItemsButSecrets ((key, item) :: items) ((key, item') :: items')
end

mutual
theorem sanitizeLogValue_eq : ∀ {value value' : LogValue Obj}, SameButSecrets value value' →
    sanitizeLogValue value = sanitizeLogValue value'
  | _, _, .other _ => rfl
  | _, _, .text h => by rw [sanitizeLogValue, sanitizeLogValue, maskCredentials_eq h]
  | _, _, .list h => by rw [sanitizeLogValue, sanitizeLogValue, sanitizeList_eq h]
  | _, _, .tuple h => by rw [sanitizeLogValue, sanitizeLogValue, sanitizeList_eq h]
  | _, _, .dict h => by rw [sanitizeLogValue, sanitizeLogValue, sanitizeItems_eq h]

theorem sanitizeList_eq : ∀ {items items' : List (LogValue Obj)}, SameListButSecrets items items' →
    sanitizeList items = sanitizeList items'
  | _, _, .nil => rfl
  | _, _, .cons h hs => by
    rw [sanitizeList, sanitizeList, sanitizeLogValue_eq h, sanitizeList_eq hs]

theorem sanitizeItems_eq : ∀ {items items' : List (LogKey Obj × LogValue Obj)},
    SameItemsButSecrets items items' → sanitizeItems items = sanitizeItems items'
  | _, _, .nil => rfl
  | _, _, .secret hkey _ _ hs => by
    rw [sanitizeItems, sanitizeItems, if_pos hkey, if_pos hkey, sanitizeItems_eq hs]
  | _, _, .cons _ h hs => by
    rw [sanitizeItems, sanitizeItems, sanitizeLogValue_eq h, sanitizeItems_eq hs]
end

/-- Sanitising a dictionary of texts leaves every item that is clean already. -/
theorem sanitizeItems_textKeys {items : List (String × LogValue Obj)}
    (h : ∀ item ∈ items, (if isSensitiveKey item.1 then text mask else sanitizeLogValue item.2) =
      item.2) :
    sanitizeItems (items.map fun (key, item) ↦ (.text key, item)) = items := by
  induction items with
  | nil => rfl
  | cons item items ih =>
    obtain ⟨key, item⟩ := item
    rw [List.map_cons, sanitizeItems, ih fun i hi ↦ h i (List.mem_cons_of_mem _ hi)]
    exact congrArg (fun value ↦ (key, value) :: items) (h (key, item) (List.mem_cons_self ..))

mutual
theorem sanitizeLogValue_sanitizeLogValue : ∀ value : LogValue Obj,
    sanitizeLogValue (sanitizeLogValue value) = sanitizeLogValue value
  | other _ => rfl
  | text s => by rw [sanitizeLogValue, sanitizeLogValue, maskCredentials_maskCredentials]
  | list items => by rw [sanitizeLogValue, sanitizeLogValue, sanitizeList_sanitizeList items]
  | tuple items => by rw [sanitizeLogValue, sanitizeLogValue, sanitizeList_sanitizeList items]
  | dict items => by
    have hclean := sanitizeItems_textKeys fun item hitem ↦
      clean_of_mem_sanitizeItems items item (mem_ofItems hitem)
    rw [sanitizeLogValue, ofItems, sanitizeLogValue, hclean, (distinct_ofItems _).ofItems_eq,
      ofItems]

theorem sanitizeList_sanitizeList : ∀ items : List (LogValue Obj),
    sanitizeList (sanitizeList items) = sanitizeList items
  | [] => rfl
  | item :: items => by
    rw [sanitizeList, sanitizeList, sanitizeLogValue_sanitizeLogValue item,
      sanitizeList_sanitizeList items]

/-- What is set in the new dictionary needs no further sanitising. -/
theorem clean_of_mem_sanitizeItems : ∀ (items : List (LogKey Obj × LogValue Obj)),
    ∀ item ∈ sanitizeItems items,
      (if isSensitiveKey item.1 then text mask else sanitizeLogValue item.2) = item.2
  | [], _, h => absurd h List.not_mem_nil
  | (key, value) :: items, item, h => by
    rw [sanitizeItems, List.mem_cons] at h
    obtain rfl | h := h
    · dsimp only
      split
      · rfl
      · exact sanitizeLogValue_sanitizeLogValue value
    · exact clean_of_mem_sanitizeItems items item h
end

/-- **Sanitising tells nothing about secrets**: two values that differ in their secrets only are
logged as the same.  A sanitised value is logged as it is. -/
theorem sanitizeLogValue_secrets (value value' : LogValue Obj) :
    (SameButSecrets value value' → sanitizeLogValue value = sanitizeLogValue value') ∧
      sanitizeLogValue (sanitizeLogValue value) = sanitizeLogValue value :=
  ⟨sanitizeLogValue_eq, sanitizeLogValue_sanitizeLogValue value⟩

/-- A password and a URI, in a list of dictionaries. -/
def sampleValue (password uri : String) : LogValue String :=
  .list [.dict [(.text "Api-Key", .text password), (.other "7", .tuple [.text uri, .other "None"])]]

/-- Two of them with other secrets are logged as the same. -/
theorem sanitizeLogValue_secrets_sample :
    sanitizeLogValue (sampleValue "abc" "at mongodb://user:pass@db:27017/ollog") =
      sanitizeLogValue (sampleValue "xyz" "at mongodb://admin:***@db:27017/ollog") ∧
    sanitizeLogValue
        (sanitizeLogValue (sampleValue "abc" "at mongodb://user:pass@db:27017/ollog")) =
      sanitizeLogValue (sampleValue "abc" "at mongodb://user:pass@db:27017/ollog") := by
  have huri : SameButCredentials "mongodb://user:pass@db:27017/ollog".toList
      "mongodb://admin:***@db:27017/ollog".toList :=
    @SameButCredentials.uri "mongodb://".toList "user".toList "pass".toList "admin".toList
      "***".toList "db:27017/ollog".toList "db:27017/ollog".toList (by decide)
      ⟨by decide, List.all_eq_true.1 (by decide), by decide, List.all_eq_true.1 (by decide)⟩
      ⟨by decide, List.all_eq_true.1 (by decide), by decide, List.all_eq_true.1 (by decide)⟩
      (.refl _)
  have hsame := sanitizeLogValue_secrets
    (sampleValue "abc" "at mongodb://user:pass@db:27017/ollog")
    (sampleValue "xyz" "at mongodb://admin:***@db:27017/ollog")
  refine ⟨hsame.1 (.list (.cons (.dict ?_) .nil)), hsame.2⟩
  refine .secret (by decide) _ _ (.cons _ (.tuple (.cons (.text ?_) (.cons (.other _) .nil))) .nil)
  exact .cons 'a' (.cons 't' (.cons ' ' huri))

/-! ## What is logged -/

/-- `sanitize_metadata`; no metadata is an empty dictionary. -/
def sanitizeMetadata (metadata : Option (List (LogKey Obj × LogValue Obj))) : LogValue Obj :=
  sanitizeLogValue (dict (metadata.getD []))

/-- An exception as the log shows it: its class, its text and its traceback. -/
structure LoggedException where
  name : String
  message : String
  stack : String

/-- `error_details`. -/
def errorDetails (exc : Option LoggedException) (details : Option (LogValue Obj)) :
    Option (LogValue Obj) :=
  if exc.isNone && details.isNone then none
  else
    let raised := exc.elim [] fun exc ↦
      [(.text "type", text exc.name), (.text "message", text exc.message),
        (.text "stack", text exc.stack)]
    let given := details.elim [] fun details ↦ [(.text "details", details)]
    some (sanitizeLogValue (dict (raised ++ given)))

/-- The details of an error are clean. -/
theorem sanitizeLogValue_of_errorDetails {exc : Option LoggedException}
    {details : Option (LogValue Obj)} {value : LogValue Obj}
    (h : errorDetails exc details = some value) : sanitizeLogValue value = value := by
  rw [errorDetails] at h
  split at h
  · cases h
  · obtain rfl := Option.some.inj h
    exact sanitizeLogValue_sanitizeLogValue _

/-- Errors that differ in secrets only have the same details: a driver names the URI it could not
connect to in its message, and the traceback repeats it. -/
theorem errorDetails_eq {name message message' stack stack' : String}
    {details details' : LogValue Obj}
    (hmessage : SameButCredentials message.toList message'.toList)
    (hstack : SameButCredentials stack.toList stack'.toList)
    (hdetails : SameButSecrets details details') :
    errorDetails (some ⟨name, message, stack⟩) (some details) =
      errorDetails (some ⟨name, message', stack'⟩) (some details') := by
  refine congrArg some (sanitizeLogValue_eq (.dict ?_))
  exact .cons _ (.text (.refl _)) (.cons _ (.text hmessage) (.cons _ (.text hstack)
    (.cons _ hdetails .nil)))

end LogValue

end Ollog

import Ollog.Tokens.Service

/-!
# The user of an API key

`_resolve_user_from_api_key` looks the tokens with the prefix of the key up in the database, and
takes the first one that is active, matches the key, and belongs to an enabled user.
-/

set_option autoImplicit false

namespace Ollog

/-- What every key starts with. -/
def apiKeyPrefix : List Char := "ollog_".toList

/-- `api_key[6:14]`. -/
def lookupPrefix (apiKey : String) : String := String.ofList ((apiKey.toList.drop 6).take 8)

/-- A key that may be one. -/
def looksLikeApiKey (apiKey : String) : Bool :=
  apiKeyPrefix.isPrefixOf apiKey.toList && 14 ≤ apiKey.toList.length

/-- The user of a candidate, with the candidate. -/
def verifyCandidate (secret apiKey : String) (store : TokenStore) (candidate : ApiToken) :
    Option (ApiToken × StoredUser) :=
  if !tokenIsActive store.now candidate then none
  else if !verifyApiToken secret apiKey candidate.hashedToken then none
  else match findUser store.users candidate.userId with
    | some user => if user.enabled then some (candidate, user) else none
    | none => none

/-- `candidate.set({ApiToken.last_used_at: now})`. -/
def touchToken (store : TokenStore) (oid : ObjectId) : TokenStore := { store with
  tokens := store.tokens.map fun t ↦
    if t.id = oid then { t with lastUsedAt := some store.now.toStored } else t }

/-- `_resolve_user_from_api_key`. -/
def resolveUserFromApiKey (secret apiKey : String) (store : TokenStore) :
    Option StoredUser × TokenStore :=
  if looksLikeApiKey apiKey then
    let candidates := store.tokens.filter fun t ↦ t.tokenPrefix = lookupPrefix apiKey
    match candidates.findSome? (verifyCandidate secret apiKey store) with
    | some (candidate, user) => (some user, touchToken store candidate.id)
    | none => (none, store)
  else (none, store)

theorem verifyCandidate_eq (secret apiKey : String) (store : TokenStore) (candidate : ApiToken) :
    verifyCandidate secret apiKey store candidate =
      if candidate.hashedToken = hashApiToken secret apiKey then
        (store.owner candidate).map fun user ↦ (candidate, user)
      else none := by
  rw [verifyCandidate, verifyApiToken, TokenStore.owner]
  cases tokenIsActive store.now candidate with
  | false => simp
  | true =>
    by_cases hh : candidate.hashedToken = hashApiToken secret apiKey
    · cases findUser store.users candidate.userId with
      | none => simp [hh]
      | some user => cases henabled : user.enabled <;> simp [hh, henabled, Option.filter]
    · rw [if_neg hh, beq_eq_false_iff_ne.2 (Ne.symm hh)]
      rfl

/-- A token was issued under this key. -/
structure IssuedAs (secret apiKey : String) (token : ApiToken) : Prop where
  looksLike : looksLikeApiKey apiKey = true
  tokenPrefix : token.tokenPrefix = lookupPrefix apiKey
  hashed : token.hashedToken = hashApiToken secret apiKey

/-- **Who an issued key is**, if the hashes are distinct: the user of its token. -/
theorem resolveUserFromApiKey_of_issued {secret apiKey : String} {store : TokenStore}
    (hdistinct : store.DistinctHashes) {token : ApiToken} (htoken : token ∈ store.tokens)
    (hissued : IssuedAs secret apiKey token) :
    (resolveUserFromApiKey secret apiKey store).1 = store.owner token := by
  have hfind : (store.tokens.filter fun t ↦ t.tokenPrefix = lookupPrefix apiKey).findSome?
      (verifyCandidate secret apiKey store) =
      (store.owner token).map fun user ↦ (token, user) := by
    have hother : ∀ t ∈ store.tokens, t ≠ token → verifyCandidate secret apiKey store t = none := by
      intro t ht hne
      rw [verifyCandidate_eq, if_neg fun heq ↦ hne ?_]
      have hnamed := store.named_of_mem hdistinct ht
      rw [heq, ← hissued.hashed, store.named_of_mem hdistinct htoken] at hnamed
      exact (Option.some.inj hnamed).symm
    have hself : verifyCandidate secret apiKey store token =
        (store.owner token).map fun user ↦ (token, user) := by
      rw [verifyCandidate_eq, if_pos hissued.hashed]
    have hmem : token ∈ store.tokens.filter fun t ↦ t.tokenPrefix = lookupPrefix apiKey :=
      List.mem_filter.2 ⟨htoken, decide_eq_true hissued.tokenPrefix⟩
    rw [← hself]
    cases hfind : (store.tokens.filter fun t ↦ t.tokenPrefix = lookupPrefix apiKey).findSome?
        (verifyCandidate secret apiKey store) with
    | none => exact (List.findSome?_eq_none_iff.1 hfind token hmem).symm
    | some found =>
      obtain ⟨t, ht, hfound⟩ := List.exists_of_findSome?_eq_some hfind
      by_cases hne : t = token
      · rw [← hne, hfound]
      · cases (hother t (List.mem_of_mem_filter ht) hne).symm.trans hfound
  rw [resolveUserFromApiKey, if_pos hissued.looksLike]
  dsimp only
  rw [hfind]
  cases store.owner token <;> rfl

end Ollog

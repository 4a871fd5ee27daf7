import Ollog.Lib.DirtyCache
import Ollog.Tokens.Service

/-!
# The token cache of the UDP listener

`UDPTokenCache` maps the hashes of the active tokens to their users.  It is an instance of a cache
behind a dirty flag: a load reads the tokens, and then for each of them the clock and the user, and
the endpoints that create and revoke tokens mark the cache dirty after they have written.

A revocation is lost if it falls inside a load: the load has read the token before it was revoked,
and clears the flag after it was set (`revocation_lost`).  It is never lost otherwise
(`revocations_kept`).
-/

set_option autoImplicit false

namespace Ollog

open DirtyCache Effects

/-- What is cached: the users, by the hashes of their tokens. -/
abbrev TokenMap := Std.ExtTreeMap String StoredUser

/-- One round of `UDPTokenCache.load`. -/
def loadToken (cache : TokenMap) (token : ApiToken) : Reader TokenStore TokenMap := do
  if !tokenIsActive (← Reader.source).now token then return cache
  match findUser (← Reader.source).users token.userId with
  | some user => return if user.enabled then cache.insert token.hashedToken user else cache
  | none => return cache

/-- `UDPTokenCache.load`, up to the assignment to the cache. -/
def loadTokens : Reader TokenStore TokenMap := do
  let tokens := (← Reader.source).tokens.filter (·.enabled)
  tokens.foldlM loadToken ∅

/-- `UDPTokenCache.resolve`. -/
def tokenCache (secret : String) : Protocol TokenStore TokenMap String (Option StoredUser) where
  load := loadTokens
  find rawToken cache := cache[hashApiToken secret rawToken]?

/-! ## What a load makes of a store -/

/-- One round, if nothing happens meanwhile. -/
def addToken (store : TokenStore) (cache : TokenMap) (token : ApiToken) : TokenMap :=
  match store.owner token with
  | some user => cache.insert token.hashedToken user
  | none => cache

theorem eval_loadToken (store : TokenStore) (cache : TokenMap) (token : ApiToken) :
    (loadToken cache token).eval store = addToken store cache token := by
  rw [loadToken, addToken, TokenStore.owner, Reader.eval_bind, Reader.eval_source]
  cases tokenIsActive store.now token with
  | false => rfl
  | true =>
    rw [if_pos rfl, Bool.not_true, if_neg Bool.false_ne_true, Reader.eval_bind, Reader.eval_source]
    cases findUser store.users token.userId with
    | none => rfl
    | some user => cases henabled : user.enabled <;> simp [henabled, Option.filter]

/-- A token that is not enabled is nobody's. -/
theorem TokenStore.owner_of_disabled (store : TokenStore) {token : ApiToken}
    (h : token.enabled = false) : store.owner token = none := by
  rw [owner, tokenIsActive, h, Bool.false_and, if_neg Bool.false_ne_true]

theorem eval_loadTokens (store : TokenStore) :
    loadTokens.eval store = store.tokens.foldl (addToken store) ∅ := by
  rw [loadTokens, Reader.eval_bind, Reader.eval_source, Reader.eval_foldlM]
  simp only [eval_loadToken]
  generalize (∅ : TokenMap) = cache
  induction store.tokens generalizing cache with
  | nil => rfl
  | cons token tokens ih =>
    rw [List.filter_cons, List.foldl_cons]
    cases henabled : token.enabled with
    | true => exact ih _
    | false =>
      rw [addToken, store.owner_of_disabled henabled]
      exact ih cache

/-- **What is cached**, if the hashes are distinct: under every hash the user of the token that has
it. -/
theorem getElem?_eval_loadTokens {store : TokenStore} (hdistinct : store.DistinctHashes)
    (hashed : String) :
    (loadTokens.eval store)[hashed]? = (store.named hashed).bind store.owner := by
  have hfold : ∀ (tokens : List ApiToken) (cache : TokenMap),
      (tokens.Pairwise fun t t' ↦ t.hashedToken ≠ t'.hashedToken) →
      (tokens.foldl (addToken store) cache)[hashed]? =
        ((tokens.find? fun t ↦ t.hashedToken = hashed).bind store.owner).or cache[hashed]? := by
    intro tokens
    induction tokens with
    | nil => exact fun cache _ ↦ rfl
    | cons token tokens ih =>
      intro cache hpairwise
      obtain ⟨htoken, htokens⟩ := List.pairwise_cons.1 hpairwise
      rw [List.foldl_cons, ih _ htokens, List.find?_cons]
      by_cases hh : token.hashedToken = hashed
      · -- No later token has this hash.
        have hnone : (tokens.find? fun t ↦ t.hashedToken = hashed) = none :=
          List.find?_eq_none.2 fun t ht heq ↦ htoken t ht (hh.trans (of_decide_eq_true heq).symm)
        rw [hnone, decide_eq_true hh, addToken]
        cases howner : store.owner token with
        | none => simp [howner]
        | some user => simp [howner, hh]
      · rw [decide_eq_false hh, addToken]
        cases store.owner token with
        | none => rfl
        | some user =>
          dsimp only
          rw [Std.ExtTreeMap.getElem?_insert, if_neg (by simpa using hh)]
  rw [eval_loadTokens, hfold _ _ hdistinct]
  simp [TokenStore.named]

end Ollog

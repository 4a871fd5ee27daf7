import Ollog.Auth.Dependencies
import Ollog.Udp.TokenCache

/-!
# Who a token is, over UDP and over HTTP

The HTTP side decides who a token is when it is used; the UDP side decides it when the cache is
loaded, and asks again only after a token has been created or revoked.  In between, a token may
expire, and its user may be disabled or enabled, without the cache noticing
(`disabled_user_still_cached`).

`Undisturbed` says which steps of a run do not matter to a cache that is not dirty.  In a run of
such steps the two sides agree at every moment about every token that has been issued
(`agree_throughout`).
-/

set_option autoImplicit false

namespace Ollog

open DirtyCache Effects

/-! ## Runs -/

/-- The database, the cache, and the tokens that have been shown to their users. -/
structure TokenService where
  store : TokenStore
  cache : Cache TokenMap
  issued : List String

/-- One thing that happens, from its beginning to its end. -/
inductive TokenAction where
  | create (user : StoredUser) (req : CreateTokenRequest)
  | revoke (user : StoredUser) (tokenId : String)
  | setEnabled (username : String) (enabled : Bool)
  /-- Some microseconds pass. -/
  | tick (d : Nat)
  | lookUpUdp (rawToken : String)
  | lookUpHttp (apiKey : String)

/-- The clock after some microseconds. -/
def later (now : DateTime) (d : Nat) : DateTime := { now with wall := now.wall + d }

namespace TokenService

/-- `token_cache.resolve(raw_token)`. -/
def resolveUdp (secret : String) (s : TokenService) (rawToken : String) : Option StoredUser :=
  (tokenCache secret).find rawToken (s.cache.refresh (loadTokens.eval s.store)).content

/-- `_resolve_user_from_api_key(api_key)`. -/
def resolveHttp (secret : String) (s : TokenService) (apiKey : String) : Option StoredUser :=
  (resolveUserFromApiKey secret apiKey s.store).1

/-- That is what a task answers that is not interrupted. -/
theorem exists_answered_resolveUdp (secret : String)
    {s : State TokenStore TokenMap String (Option StoredUser) ℕ} {i : ℕ} {rawToken : String}
    (h : s.tasks i = some (.testing rawToken)) (issued : List String) :
    ∃ n, (advances (tokenCache secret) s i n).tasks i =
      some (.answered rawToken (resolveUdp secret ⟨s.source, s.cache, issued⟩ rawToken)) := by
  obtain ⟨n, hn⟩ := exists_advances_testing (tokenCache secret) h
  exact ⟨n, hn ▸ State.tasks_setTask_self ..⟩

section

variable [UnicodeData] (secret : String)

/-- One step of a run. -/
def step (s : TokenService) : TokenAction → TokenService
  | .create user req =>
    match newToken secret s.store.now user req >>= insertToken s.store.tokens with
    | .error _ => s
    | .ok tokens => {
        store := { s.store with tokens }
        cache := s.cache.notify
        issued := s.issued ++ [(generateApiToken req.body).1] }
  | .revoke user tokenId =>
    match tokenOid tokenId >>= ownToken s.store.tokens user with
    | .error _ => s
    | .ok token => { s with
        store := { s.store with tokens := disableToken s.store.tokens token.id }
        cache := s.cache.notify }
  | .setEnabled username enabled =>
    -- Only the cache of the operators is told.
    match setUserEnabled username enabled s.store.users with
    | .error _ => s
    | .ok users => { s with store := { s.store with users } }
  | .tick d => { s with store := { s.store with now := later s.store.now d } }
  | .lookUpUdp _ => { s with cache := s.cache.refresh (loadTokens.eval s.store) }
  | .lookUpHttp apiKey => { s with store := (resolveUserFromApiKey secret apiKey s.store).2 }

end

end TokenService

/-! ## Stores that load alike -/

/-- What a load makes of two stores is the same, if they have the same hashes of the same users. -/
theorem eval_loadTokens_map {store store' : TokenStore} (f : ApiToken → ApiToken)
    (htokens : store'.tokens = store.tokens.map f)
    (hf : ∀ t ∈ store.tokens, (f t).hashedToken = t.hashedToken ∧
      store'.owner (f t) = store.owner t) :
    loadTokens.eval store' = loadTokens.eval store := by
  rw [eval_loadTokens, eval_loadTokens, htokens, List.foldl_map]
  refine List.foldl_ext _ _ _ fun cache t ht ↦ ?_
  rw [addToken, addToken, (hf t ht).1, (hf t ht).2]

theorem eval_loadTokens_congr {store store' : TokenStore} (htokens : store'.tokens = store.tokens)
    (h : ∀ t ∈ store.tokens, store'.owner t = store.owner t) :
    loadTokens.eval store' = loadTokens.eval store :=
  eval_loadTokens_map id (htokens.trans (List.map_id _).symm) fun t ht ↦ ⟨rfl, h t ht⟩

/-- A token that is not active will not be. -/
theorem tokenIsActive_of_later {now : DateTime} {d : Nat} {token : ApiToken}
    (h : tokenIsActive (later now d) token = true) : tokenIsActive now token = true := by
  rw [tokenIsActive, Bool.and_eq_true] at h ⊢
  refine ⟨h.1, ?_⟩
  obtain ⟨-, hlate⟩ := h
  revert hlate
  cases token.expiresAt with
  | none => exact fun _ ↦ rfl
  | some expires =>
    simp only [Bool.not_eq_true', DateTime.utc, later]
    intro hlate
    have hlt := of_decide_eq_false hlate
    refine decide_eq_false ?_
    omega

/-! ## The invariant -/

/-- What holds at every moment: hashes and ids are distinct, every token that has been issued has
its document, and a cache that is not dirty is what a load would make of the database. -/
structure TokenService.Coherent (secret : String) (s : TokenService) : Prop where
  distinct : s.store.DistinctHashes
  distinctIds : DistinctIds s.store.users
  issued : ∀ rawToken ∈ s.issued, ∃ token ∈ s.store.tokens, IssuedAs secret rawToken token
  cache : s.cache.Sound (· = loadTokens.eval s.store)

/-- **The two sides agree** on who an issued token is. -/
theorem TokenService.Coherent.agree {secret : String} {s : TokenService} (h : s.Coherent secret)
    {rawToken : String} (hissued : rawToken ∈ s.issued) :
    s.resolveUdp secret rawToken = s.resolveHttp secret rawToken := by
  obtain ⟨token, htoken, has⟩ := h.issued rawToken hissued
  have hcontent : (s.cache.refresh (loadTokens.eval s.store)).content = loadTokens.eval s.store :=
    h.cache.refresh rfl
  calc s.resolveUdp secret rawToken
      = (loadTokens.eval s.store)[hashApiToken secret rawToken]? := by
        rw [resolveUdp, hcontent]
        rfl
    _ = s.store.owner token := by
        rw [getElem?_eval_loadTokens h.distinct, ← has.hashed, s.store.named_of_mem h.distinct htoken,
          Option.bind_some]
    _ = s.resolveHttp secret rawToken :=
        (resolveUserFromApiKey_of_issued h.distinct htoken has).symm

/-- A token keeps what it was issued as. -/
theorem IssuedAs.congr {secret rawToken : String} {token token' : ApiToken}
    (h : IssuedAs secret rawToken token) (hpre : token'.tokenPrefix = token.tokenPrefix)
    (hhash : token'.hashedToken = token.hashedToken) : IssuedAs secret rawToken token' :=
  ⟨h.looksLike, hpre.trans h.tokenPrefix, hhash.trans h.hashed⟩

/-- Changing the documents one by one, without touching prefixes and hashes. -/
theorem TokenService.Coherent.mapTokens {secret : String} {s : TokenService}
    (h : s.Coherent secret) (f : ApiToken → ApiToken)
    (hf : ∀ t, (f t).tokenPrefix = t.tokenPrefix ∧ (f t).hashedToken = t.hashedToken)
    (cache : Cache TokenMap) (hcache : cache.Sound
      (· = loadTokens.eval { s.store with tokens := s.store.tokens.map f })) :
    TokenService.Coherent secret
      ⟨{ s.store with tokens := s.store.tokens.map f }, cache, s.issued⟩ where
  distinct := by
    refine List.pairwise_map.2 (h.distinct.imp fun {t t'} hne ↦ ?_)
    rwa [(hf t).2, (hf t').2]
  distinctIds := h.distinctIds
  issued rawToken hraw := by
    obtain ⟨token, htoken, has⟩ := h.issued rawToken hraw
    exact ⟨f token, List.mem_map_of_mem htoken, has.congr (hf token).1 (hf token).2⟩
  cache := hcache

/-- A change of the accounts or of the clock that the tokens do not notice. -/
theorem TokenService.Coherent.unnoticed {secret : String} {s : TokenService} (h : s.Coherent secret)
    (users : List StoredUser) (now : DateTime) (hids : DistinctIds users)
    (howner : s.cache.dirty = false → ∀ t ∈ s.store.tokens,
      TokenStore.owner ⟨s.store.tokens, users, now⟩ t = s.store.owner t) :
    TokenService.Coherent secret ⟨⟨s.store.tokens, users, now⟩, s.cache, s.issued⟩ where
  distinct := h.distinct
  distinctIds := hids
  issued := h.issued
  cache hclean := (h.cache hclean).trans (eval_loadTokens_congr
    (show (TokenStore.mk s.store.tokens users now).tokens = s.store.tokens from rfl)
    (howner hclean)).symm

section

variable [UnicodeData] {secret : String}

/-- The steps that do not disturb a cache that is not dirty: no user of an active token is enabled
or disabled, and no token of an enabled user expires.  A new token is long enough and has a new
hash. -/
def Undisturbed (secret : String) (s : TokenService) : TokenAction → Prop
  | .create user req => ∀ doc, newToken secret s.store.now user req = .ok doc →
      8 ≤ req.body.toList.length ∧ ∀ t ∈ s.store.tokens, t.hashedToken ≠ doc.hashedToken
  | .setEnabled username enabled => s.cache.dirty = false →
      ∀ user, findByUsername s.store.users username = some user → user.enabled ≠ enabled →
      ∀ token ∈ s.store.tokens, token.userId = user.id → tokenIsActive s.store.now token = false
  | .tick d => s.cache.dirty = false → ∀ token ∈ s.store.tokens,
      (s.store.owner token).isSome = true → tokenIsActive (later s.store.now d) token = true
  | .revoke .. | .lookUpUdp _ | .lookUpHttp _ => True

/-- A token is issued under the key that is shown. -/
theorem issuedAs_newToken {now : DateTime} {user : StoredUser} {req : CreateTokenRequest}
    {doc : ApiToken} (h : newToken secret now user req = .ok doc) (hbody : 8 ≤ req.body.toList.length) :
    IssuedAs secret (generateApiToken req.body).1 doc.toStored := by
  rw [newToken] at h
  split at h
  · cases h
  obtain ⟨expiresAt, -, h⟩ := bind_eq_ok.1 h
  obtain rfl := Except.ok.inj h
  have hchars : (generateApiToken req.body).1.toList = apiKeyPrefix ++ req.body.toList :=
    String.toList_append
  refine ⟨?_, ?_, rfl⟩
  · rw [looksLikeApiKey, hchars, Bool.and_eq_true]
    refine ⟨List.isPrefixOf_iff_prefix.2 (List.prefix_append ..), ?_⟩
    rw [decide_eq_true_eq, List.length_append]
    exact Nat.add_le_add_left hbody 6
  · rw [lookupPrefix, hchars]
    rfl

theorem TokenService.Coherent.create {s : TokenService} (h : s.Coherent secret) {user : StoredUser}
    {req : CreateTokenRequest} {doc : ApiToken} {tokens : List ApiToken}
    (hdoc : newToken secret s.store.now user req = .ok doc)
    (htokens : insertToken s.store.tokens doc = .ok tokens) (hbody : 8 ≤ req.body.toList.length)
    (hfresh : ∀ t ∈ s.store.tokens, t.hashedToken ≠ doc.hashedToken) :
    TokenService.Coherent secret {
      store := { s.store with tokens }
      cache := s.cache.notify
      issued := s.issued ++ [(generateApiToken req.body).1] } := by
  rw [insertToken] at htokens
  split at htokens
  · cases htokens
  obtain rfl := Except.ok.inj htokens
  refine ⟨?_, h.distinctIds, fun rawToken hraw ↦ ?_, Cache.sound_notify⟩
  · refine List.pairwise_append.2 ⟨h.distinct, List.pairwise_singleton _ _, fun t ht t' ht' ↦ ?_⟩
    rw [List.mem_singleton.1 ht']
    exact hfresh t ht
  · obtain hraw | hraw := List.mem_append.1 hraw
    · obtain ⟨token, htoken, has⟩ := h.issued rawToken hraw
      exact ⟨token, List.mem_append_left _ htoken, has⟩
    · rw [List.mem_singleton.1 hraw]
      exact ⟨doc.toStored, List.mem_append_right _ (List.mem_singleton_self _),
        issuedAs_newToken hdoc hbody⟩

omit [UnicodeData] in
/-- Enabling or disabling a user without active tokens, or to no effect. -/
theorem TokenStore.owner_setEnabled {store : TokenStore} (hids : DistinctIds store.users)
    {user : StoredUser} (huser : user ∈ store.users) {enabled : Bool} {token : ApiToken}
    (h : user.enabled ≠ enabled → token.userId = user.id →
      tokenIsActive store.now token = false) :
    TokenStore.owner { store with users := setEnabled store.users user.id enabled } token =
      store.owner token := by
  rw [owner, owner]
  cases hactive : tokenIsActive store.now token with
  | false => rfl
  | true =>
    rw [if_pos rfl, if_pos rfl, findUser_setEnabled]
    by_cases hid : token.userId = user.id
    · -- The user's own token: nothing has changed.
      have hsame : user.enabled = enabled := by
        by_contra hne
        cases hactive.symm.trans (h hne hid)
      rw [hid, findUser_of_mem hids huser, Option.map_some, if_pos rfl, ← hsame]
    · refine congrArg (Option.filter _) ?_
      cases hfind : findUser store.users token.userId with
      | none => rfl
      | some found =>
        rw [Option.map_some, if_neg fun heq ↦ hid ((mem_of_findUser hfind).2.symm.trans heq)]

omit [UnicodeData] in
/-- Time passes, and no token of an enabled user expires. -/
theorem TokenStore.owner_later {store : TokenStore} {d : Nat} {token : ApiToken}
    (h : (store.owner token).isSome = true → tokenIsActive (later store.now d) token = true) :
    TokenStore.owner { store with now := later store.now d } token = store.owner token := by
  rw [owner, owner] at *
  cases hlate : tokenIsActive (later store.now d) token with
  | true => rw [if_pos rfl, if_pos (tokenIsActive_of_later hlate)]
  | false =>
    rw [hlate] at h
    rw [if_neg Bool.false_ne_true]
    cases howner : (if tokenIsActive store.now token then
        (findUser store.users token.userId).filter (·.enabled) else none) with
    | none => rfl
    | some user =>
      rw [howner] at h
      cases h rfl

omit [UnicodeData] in
/-- What a lookup over HTTP does to the database. -/
theorem resolveUserFromApiKey_store (secret apiKey : String) (store : TokenStore) :
    (resolveUserFromApiKey secret apiKey store).2 = store ∨
      ∃ oid, (resolveUserFromApiKey secret apiKey store).2 = touchToken store oid := by
  rw [resolveUserFromApiKey]
  split
  · dsimp only
    split
    · exact .inr ⟨_, rfl⟩
    · exact .inl rfl
  · exact .inl rfl

theorem TokenService.Coherent.step {s : TokenService} (h : s.Coherent secret) {a : TokenAction}
    (ha : Undisturbed secret s a) : (s.step secret a).Coherent secret := by
  cases a with
  | create user req =>
    rw [TokenService.step]
    split
    · exact h
    · rename_i tokens hcreate
      obtain ⟨doc, hdoc, htokens⟩ := bind_eq_ok.1 hcreate
      exact h.create hdoc htokens (ha doc hdoc).1 (ha doc hdoc).2
  | revoke user tokenId =>
    rw [TokenService.step]
    split
    · exact h
    · refine h.mapTokens _ (fun t ↦ ?_) s.cache.notify Cache.sound_notify
      split <;> exact ⟨rfl, rfl⟩
  | setEnabled username enabled =>
    rw [TokenService.step]
    split
    · exact h
    rename_i users hset
    rw [setUserEnabled] at hset
    split at hset
    · cases hset
    rename_i user hfind
    obtain rfl := changeEnabled_eq_ok hset
    refine h.unnoticed _ _ (distinctIds_setEnabled h.distinctIds ..) fun hclean t ht ↦ ?_
    exact TokenStore.owner_setEnabled h.distinctIds (List.mem_of_find?_eq_some hfind)
      fun hne hid ↦ ha hclean user hfind hne t ht hid
  | tick d =>
    exact h.unnoticed _ _ h.distinctIds fun hclean t ht ↦ TokenStore.owner_later (ha hclean t ht)
  | lookUpUdp rawToken =>
    exact ⟨h.distinct, h.distinctIds, h.issued, fun _ ↦ h.cache.refresh rfl⟩
  | lookUpHttp apiKey =>
    rw [TokenService.step]
    obtain heq | ⟨oid, heq⟩ := resolveUserFromApiKey_store secret apiKey s.store
    · rw [heq]
      exact h
    · rw [heq]
      have heval : loadTokens.eval (touchToken s.store oid) = loadTokens.eval s.store := by
        refine eval_loadTokens_map
          (fun t ↦ if t.id = oid then { t with lastUsedAt := some s.store.now.toStored } else t)
          rfl fun t _ ↦ ?_
        split <;> exact ⟨rfl, rfl⟩
      refine h.mapTokens _ (fun t ↦ ?_) s.cache fun hclean ↦ (h.cache hclean).trans heval.symm
      split <;> exact ⟨rfl, rfl⟩

/-- At every moment of a run, the two sides agree about every token that has been issued by then. -/
def AgreeThroughout (secret : String) (s : TokenService) (actions : List TokenAction) : Prop :=
  ∀ before after, actions = before ++ after →
    ∀ rawToken ∈ (run (TokenService.step secret) s before).issued,
      (run (TokenService.step secret) s before).resolveUdp secret rawToken =
        (run (TokenService.step secret) s before).resolveHttp secret rawToken

/-- **UDP and HTTP agree on who a token is**, at every moment of a run in which nothing disturbs a
cache that is not dirty. -/
theorem agree_throughout {s : TokenService} (hdistinct : s.store.DistinctHashes)
    (hids : DistinctIds s.store.users) (hdirty : s.cache.dirty = true) (hissued : s.issued = [])
    {actions : List TokenAction}
    (h : Guarded (TokenService.step secret) (Undisturbed secret) s actions) :
    AgreeThroughout secret s actions := by
  have hstart : s.Coherent secret := by
    refine ⟨hdistinct, hids, fun rawToken hraw ↦ ?_, fun hclean ↦ ?_⟩
    · rw [hissued] at hraw
      cases hraw
    · cases hclean.symm.trans hdirty
  rintro before after rfl rawToken hraw
  have hbefore := (guarded_append.1 h).1
  exact (hbefore.induction (fun _ _ hs ha ↦ hs.step ha) hstart).agree hraw

end

/-! ## Two runs -/

section

attribute [local instance] UnicodeData.ascii

/-- One account and no token yet. -/
def Sample.tokenService : TokenService where
  store := ⟨[], [Sample.storedUser], combineUtc 738885 0⟩
  cache := ⟨∅, true⟩
  issued := []

/-- The account creates a token, which is then used over UDP. -/
def Sample.tokenInUse : List TokenAction :=
  [.create Sample.storedUser ⟨"logger", none, "AAAAAAAAAAAA", ⟨1⟩⟩, .lookUpUdp "ollog_AAAAAAAAAAAA"]

theorem agree_while_enabled : AgreeThroughout "secret" Sample.tokenService
    (Sample.tokenInUse ++ [.tick 5, .lookUpHttp "ollog_AAAAAAAAAAAA"]) := by
  have hdistinct : Sample.tokenService.store.DistinctHashes := List.Pairwise.nil
  have hids : DistinctIds Sample.tokenService.store.users := List.pairwise_singleton _ _
  have hstays : ∀ token ∈ (run (TokenService.step "secret") Sample.tokenService
      Sample.tokenInUse).store.tokens, tokenIsActive (later (run (TokenService.step "secret")
        Sample.tokenService Sample.tokenInUse).store.now 5) token = true := by
    decide +kernel
  refine agree_throughout hdistinct hids rfl rfl ?_
  refine guarded_append.2 ⟨⟨fun doc _ ↦ ⟨by decide, fun t ht ↦ nomatch ht⟩, trivial, trivial⟩, ?_⟩
  exact ⟨fun _ token htoken _ ↦ hstays token htoken, trivial, trivial⟩

/-- The account is disabled: over HTTP the token is nobody's, over UDP it still is the account's. -/
theorem disabled_user_still_cached : ¬ AgreeThroughout "secret" Sample.tokenService
    (Sample.tokenInUse ++ [.setEnabled "w1aw" false]) := by
  intro h
  have hissued : "ollog_AAAAAAAAAAAA" ∈ (run (TokenService.step "secret") Sample.tokenService
      (Sample.tokenInUse ++ [.setEnabled "w1aw" false])).issued := by decide +kernel
  have hdiffer : ¬ (run (TokenService.step "secret") Sample.tokenService
      (Sample.tokenInUse ++ [.setEnabled "w1aw" false])).resolveUdp "secret"
        "ollog_AAAAAAAAAAAA" = (run (TokenService.step "secret") Sample.tokenService
      (Sample.tokenInUse ++ [.setEnabled "w1aw" false])).resolveHttp "secret"
        "ollog_AAAAAAAAAAAA" := by decide +kernel
  exact hdiffer (h _ [] (List.append_nil _).symm _ hissued)

end

end Ollog

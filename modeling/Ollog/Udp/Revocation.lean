import Ollog.Udp.TokenCache

/-!
# Revocations and the token cache

The tasks that look tokens up and the requests of the token endpoints run in one process, and take
turns whenever one of them waits for the database.  `TokenSystem` is that process: an event is one
step of one task or of one request, or something that happens elsewhere.

A request that revokes a token disables it in the database and then marks the cache dirty.  From
then on the token is nobody's, unless a load that has read it before is still going to finish
(`revocations_kept`, `revocation_lost`).
-/

set_option autoImplicit false

namespace Ollog

open DirtyCache Effects

/-! ## Requests, step by step -/

/-- A request of the token endpoints. -/
inductive TokenRequest where
  | create (user : StoredUser) (req : CreateTokenRequest)
  | revoke (user : StoredUser) (tokenId : String)

/-- What a request has done. -/
inductive TokenChange where
  | created (token : ApiToken)
  | revoked (token : ApiToken)
  deriving DecidableEq

/-- What a request is about to do. -/
inductive RequestPhase where
  /-- `doc.insert()`. -/
  | inserting (doc : ApiToken)
  /-- `ApiToken.get(oid)`. -/
  | fetching (user : StoredUser) (oid : ObjectId)
  /-- `token.set(...)`. -/
  | disabling (token : ApiToken)
  /-- `token_cache.notify_refresh()`. -/
  | notifying (change : TokenChange)
  | answered (outcome : Except PyErr TokenChange)
  deriving DecidableEq

/-- The next step of a request: what it does to the store or to the cache, and where it is then. -/
def RequestPhase.next (store : TokenStore) :
    RequestPhase → Option (Event TokenStore String ℕ) × RequestPhase
  | inserting doc =>
    match insertToken store.tokens doc with
    | .ok tokens => (some (.write { store with tokens }), .notifying (.created doc))
    | .error exc => (none, .answered (.error exc))
  | fetching user oid =>
    match ownToken store.tokens user oid with
    | .ok token => (none, .disabling token)
    | .error exc => (none, .answered (.error exc))
  | disabling token =>
    (some (.write { store with tokens := disableToken store.tokens token.id }),
      .notifying (.revoked token))
  | notifying change => (some .notify, .answered (.ok change))
  | answered outcome => (none, .answered outcome)

/-- The process. -/
structure TokenSystem where
  /-- The store, the cache, and the tasks that look tokens up. -/
  lookups : State TokenStore TokenMap String (Option StoredUser) ℕ
  requests : ℕ → Option RequestPhase

/-- What happens next. -/
inductive TokenEvent where
  /-- A task starts `token_cache.resolve(raw_token)`. -/
  | lookUp (i : ℕ) (rawToken : String)
  /-- The next step of a task. -/
  | advance (i : ℕ)
  /-- A request arrives. -/
  | request (j : ℕ) (r : TokenRequest)
  /-- The next step of a request. -/
  | proceed (j : ℕ)
  /-- Accounts change. -/
  | accounts (users : List StoredUser)
  /-- Time passes. -/
  | tick (now : DateTime)

namespace TokenSystem

/-- Where a request is now. -/
def setRequest (s : TokenSystem) (j : ℕ) (phase : RequestPhase) : TokenSystem :=
  { s with requests := Function.update s.requests j (some phase) }

section

variable [UnicodeData] (secret : String)

/-- What a request does before it turns to the database. -/
def start (now : DateTime) : TokenRequest → RequestPhase
  | .create user req =>
    match newToken secret now user req with
    | .ok doc => .inserting doc
    | .error exc => .answered (.error exc)
  | .revoke user tokenId =>
    match tokenOid tokenId with
    | .ok oid => .fetching user oid
    | .error exc => .answered (.error exc)

/-- Something happens to the store, to the cache or to a task. -/
def does (s : TokenSystem) (e : Event TokenStore String ℕ) : TokenSystem :=
  { s with lookups := (tokenCache secret).step s.lookups e }

/-- One event.  A task and a request start once. -/
def step (s : TokenSystem) : TokenEvent → TokenSystem
  | .lookUp i rawToken => s.does secret (.lookUp i rawToken)
  | .advance i => s.does secret (.advance i)
  | .request j r =>
    if (s.requests j).isSome then s else s.setRequest j (start secret s.lookups.source.now r)
  | .proceed j =>
    match s.requests j with
    | none => s
    | some phase =>
      match phase.next s.lookups.source with
      | (none, phase') => s.setRequest j phase'
      | (some e, phase') => (s.does secret e).setRequest j phase'
  | .accounts users => s.does secret (.write { s.lookups.source with users })
  | .tick now => s.does secret (.write { s.lookups.source with now })

end

end TokenSystem

/-! ## Stores in which a token is revoked -/

/-- No token with this hash is enabled. -/
def Revoked (hashed : String) (store : TokenStore) : Prop :=
  ∀ t ∈ store.tokens, t.hashedToken = hashed → t.enabled = false

/-- A load that finds a token revoked whenever it reads the store does not cache it. -/
theorem loadTokens_yields (hashed : String) :
    loadTokens.Yields (Revoked hashed) fun cache ↦ hashed ∉ cache := by
  refine Reader.yields_bind Reader.yields_source fun store hstore ↦ ?_
  refine Reader.yields_foldlM (fun cache token htoken hcache ↦ ?_) (by simp)
  obtain ⟨htoken, henabled⟩ := List.mem_filter.1 htoken
  have hne : token.hashedToken ≠ hashed := fun heq ↦ by
    cases henabled.symm.trans (hstore token htoken heq)
  refine Reader.yields_bind Reader.yields_source fun store' _ ↦ ?_
  split
  · exact hcache
  refine Reader.yields_bind Reader.yields_source fun store'' _ ↦ ?_
  split
  · rename_i user _
    change hashed ∉ if user.enabled = true then cache.insert token.hashedToken user else cache
    split
    · rw [Std.ExtTreeMap.mem_insert, Std.compare_eq_iff_eq, not_or]
      exact ⟨hne, hcache⟩
    · exact hcache
  · exact hcache

/-- A later state of a store: hashes stay distinct, tokens stay there, and what is revoked stays
revoked. -/
structure Follows (store store' : TokenStore) : Prop where
  distinct : store.DistinctHashes → store'.DistinctHashes
  kept : ∀ t ∈ store.tokens, ∃ t' ∈ store'.tokens, t'.id = t.id ∧ t'.hashedToken = t.hashedToken
  revoked : ∀ t ∈ store.tokens, Revoked t.hashedToken store → Revoked t.hashedToken store'

theorem follows_of_tokens_eq {store store' : TokenStore} (h : store'.tokens = store.tokens) :
    Follows store store' where
  distinct hdistinct := by rwa [TokenStore.DistinctHashes, h]
  kept t ht := ⟨t, h ▸ ht, rfl, rfl⟩
  revoked t _ hrevoked := by rwa [Revoked, h]

theorem follows_insertToken {store : TokenStore} {doc : ApiToken} {tokens : List ApiToken}
    (h : insertToken store.tokens doc = .ok tokens)
    (hfresh : ∀ t ∈ store.tokens, t.hashedToken ≠ doc.hashedToken) :
    Follows store { store with tokens } := by
  rw [insertToken] at h
  split at h
  · cases h
  obtain rfl := Except.ok.inj h
  refine ⟨fun hdistinct ↦ ?_, fun t ht ↦ ⟨t, List.mem_append_left _ ht, rfl, rfl⟩,
    fun t ht hrevoked t' ht' heq ↦ ?_⟩
  · refine List.pairwise_append.2 ⟨hdistinct, List.pairwise_singleton _ _, fun t ht t' ht' ↦ ?_⟩
    rw [List.mem_singleton.1 ht']
    exact hfresh t ht
  · obtain ht' | ht' := List.mem_append.1 ht'
    · exact hrevoked t' ht' heq
    · rw [List.mem_singleton.1 ht'] at heq
      exact absurd heq.symm (hfresh t ht)

/-- Disabling a token changes neither ids nor hashes. -/
theorem exists_of_mem_disableToken {tokens : List ApiToken} {oid : ObjectId} {t' : ApiToken}
    (h : t' ∈ disableToken tokens oid) : ∃ t ∈ tokens, t'.id = t.id ∧
      t'.hashedToken = t.hashedToken ∧ (t.id = oid ∨ t.enabled = false → t'.enabled = false) := by
  obtain ⟨t, ht, rfl⟩ := List.mem_map.1 h
  refine ⟨t, ht, ?_⟩
  split
  · exact ⟨rfl, rfl, fun _ ↦ rfl⟩
  · rename_i hne
    exact ⟨rfl, rfl, fun hor ↦ hor.resolve_left hne⟩

theorem follows_disableToken (store : TokenStore) (oid : ObjectId) :
    Follows store { store with tokens := disableToken store.tokens oid } := by
  refine ⟨fun hdistinct ↦ ?_, fun t ht ↦ ?_, fun t ht hrevoked t' ht' heq ↦ ?_⟩
  · refine List.pairwise_map.2 (hdistinct.imp fun {t t'} hne ↦ ?_)
    split <;> split <;> exact hne
  · refine ⟨_, List.mem_map_of_mem ht, ?_⟩
    split <;> exact ⟨rfl, rfl⟩
  · obtain ⟨t₀, ht₀, -, hhash, henabled⟩ := exists_of_mem_disableToken ht'
    exact henabled (.inr (hrevoked t₀ ht₀ (hhash.symm.trans heq)))

/-! ## The process, step by step -/

/-- A token with this hash is there, and revoked. -/
def Gone (hashed : String) (store : TokenStore) : Prop :=
  (∃ t ∈ store.tokens, t.hashedToken = hashed) ∧ Revoked hashed store

/-- What a request knows of the store. -/
def RequestPhase.Knows (store : TokenStore) : RequestPhase → Prop
  | disabling token => ∃ t ∈ store.tokens, t.id = token.id ∧ t.hashedToken = token.hashedToken
  | notifying (.revoked token) | answered (.ok (.revoked token)) => Gone token.hashedToken store
  | inserting _ | fetching .. | notifying (.created _) | answered (.ok (.created _))
  | answered (.error _) => True

theorem Follows.gone {store store' : TokenStore} (h : Follows store store') {hashed : String}
    (hgone : Gone hashed store) : Gone hashed store' := by
  obtain ⟨⟨t, ht, rfl⟩, hrevoked⟩ := hgone
  obtain ⟨t', ht', -, hhash⟩ := h.kept t ht
  exact ⟨⟨t', ht', hhash⟩, h.revoked t ht hrevoked⟩

theorem Follows.knows {store store' : TokenStore} (h : Follows store store')
    {phase : RequestPhase} (hphase : phase.Knows store) : phase.Knows store' := by
  cases phase with
  | inserting doc => trivial
  | fetching user oid => trivial
  | disabling token =>
    obtain ⟨t, ht, hid, hhash⟩ := hphase
    obtain ⟨t', ht', hid', hhash'⟩ := h.kept t ht
    exact ⟨t', ht', hid'.trans hid, hhash'.trans hhash⟩
  | notifying change =>
    cases change with
    | created doc => trivial
    | revoked token => exact h.gone hphase
  | answered outcome =>
    cases outcome with
    | error exc => trivial
    | ok change =>
      cases change with
      | created doc => trivial
      | revoked token => exact h.gone hphase

/-- A request of a user is answered, or goes on to the database, without knowing anything. -/
theorem knows_start [UnicodeData] (secret : String) (now : DateTime) (r : TokenRequest)
    (store : TokenStore) : (TokenSystem.start secret now r).Knows store := by
  cases r with
  | create user req =>
    rw [TokenSystem.start]
    split <;> trivial
  | revoke user tokenId =>
    rw [TokenSystem.start]
    split <;> trivial

/-- The tokens that are told apart by their hashes, of which one is disabled. -/
theorem gone_disableToken {store : TokenStore} (hdistinct : store.DistinctHashes) {token : ApiToken}
    (h : ∃ t ∈ store.tokens, t.id = token.id ∧ t.hashedToken = token.hashedToken) :
    Gone token.hashedToken { store with tokens := disableToken store.tokens token.id } := by
  obtain ⟨t, ht, hid, hhash⟩ := h
  refine ⟨?_, fun t' ht' heq ↦ ?_⟩
  · obtain ⟨t', ht', -, hhash'⟩ := (follows_disableToken store token.id).kept t ht
    exact ⟨t', ht', hhash'.trans hhash⟩
  · obtain ⟨t₀, ht₀, -, hhash₀, henabled⟩ := exists_of_mem_disableToken ht'
    have hsame : t₀ = t := by
      have hnamed := store.named_of_mem hdistinct ht
      rw [hhash, ← heq, hhash₀, store.named_of_mem hdistinct ht₀] at hnamed
      exact Option.some.inj hnamed
    exact henabled (.inl (hsame ▸ hid))

section

variable [UnicodeData] {secret : String}

/-- The steps in which no revocation is lost: no load finishes after a revocation has been carried
out of a token that it has read as enabled, and a new token has a new hash. -/
def SparesRevocations (s : TokenSystem) : TokenEvent → Prop
  | .advance i => ∀ rawToken seen cache,
      s.lookups.tasks i = some (.loading rawToken seen (.done cache)) →
      ∀ j token, s.requests j = some (.answered (.ok (.revoked token))) →
      ∀ store ∈ seen, Revoked token.hashedToken store
  | .proceed j => ∀ doc, s.requests j = some (.inserting doc) →
      ∀ t ∈ s.lookups.source.tokens, t.hashedToken ≠ doc.hashedToken
  | .lookUp .. | .request .. | .accounts _ | .tick _ => True

/-- The hashes are distinct, and what the requests know is true. -/
structure Sane (s : TokenSystem) : Prop where
  distinct : s.lookups.source.DistinctHashes
  knows : ∀ j phase, s.requests j = some phase → phase.Knows s.lookups.source

omit [UnicodeData] in
/-- What the next step of a request does to the store, and what the request knows then. -/
theorem RequestPhase.follows_next {store : TokenStore} {phase : RequestPhase}
    (hdistinct : store.DistinctHashes) (hknows : phase.Knows store)
    (hfresh : ∀ doc, phase = .inserting doc → ∀ t ∈ store.tokens, t.hashedToken ≠ doc.hashedToken) :
    match phase.next store with
    | (some (.write store'), phase') => Follows store store' ∧ phase'.Knows store'
    | (_, phase') => phase'.Knows store := by
  cases phase with
  | inserting doc =>
    rw [next]
    cases hinsert : insertToken store.tokens doc with
    | error exc => trivial
    | ok tokens => exact ⟨follows_insertToken hinsert (hfresh doc rfl), trivial⟩
  | fetching user oid =>
    rw [next]
    cases hown : ownToken store.tokens user oid with
    | error exc => trivial
    | ok token =>
      rw [ownToken] at hown
      split at hown
      · cases hown
      rename_i t hfind
      split at hown
      · cases hown
      obtain rfl := Except.ok.inj hown
      exact ⟨t, List.mem_of_find?_eq_some hfind, rfl, rfl⟩
  | disabling token =>
    exact ⟨follows_disableToken store token.id, gone_disableToken hdistinct hknows⟩
  | notifying change => cases change <;> exact hknows
  | answered outcome => exact hknows

omit [UnicodeData] in
/-- A request writes to the store or marks the cache dirty, and does nothing else. -/
theorem RequestPhase.next_effect {store : TokenStore} {phase phase' : RequestPhase}
    {e : Event TokenStore String ℕ} (h : phase.next store = (some e, phase')) :
    e = .notify ∨ ∃ store', e = .write store' := by
  cases phase with
  | inserting doc =>
    rw [next] at h
    split at h
    · obtain ⟨rfl, -⟩ := Prod.mk.inj h |>.imp_left Option.some.inj
      exact .inr ⟨_, rfl⟩
    · cases h
  | fetching user oid =>
    rw [next] at h
    split at h <;> cases h
  | disabling token =>
    obtain ⟨rfl, -⟩ := Prod.mk.inj h |>.imp_left Option.some.inj
    exact .inr ⟨_, rfl⟩
  | notifying change =>
    obtain ⟨rfl, -⟩ := Prod.mk.inj h |>.imp_left Option.some.inj
    exact .inl rfl
  | answered outcome => cases h

/-- A state of the process that may come after another one. -/
structure Continues (s s' : TokenSystem) : Prop where
  follows : Follows s.lookups.source s'.lookups.source
  knows : ∀ j phase, s'.requests j = some phase → phase.Knows s'.lookups.source

omit [UnicodeData] in
theorem Sane.continues {s s' : TokenSystem} (h : Sane s)
    (htokens : s'.lookups.source.tokens = s.lookups.source.tokens)
    (hrequests : s'.requests = s.requests) : Continues s s' where
  follows := follows_of_tokens_eq htokens
  knows j phase hj := (follows_of_tokens_eq htokens).knows (h.knows j phase (hrequests ▸ hj))

omit [UnicodeData] in
/-- A request moves on. -/
theorem Continues.setRequest {s s' : TokenSystem} (h : Continues s s') {j : ℕ}
    {phase : RequestPhase} (hphase : phase.Knows s'.lookups.source) :
    Continues s (s'.setRequest j phase) := by
  refine ⟨h.follows, fun j' phase' hj' ↦ ?_⟩
  have hat : (s'.setRequest j phase).requests j' = if j' = j then some phase else s'.requests j' :=
    Function.update_apply ..
  rw [hat] at hj'
  split at hj'
  · exact Option.some.inj hj' ▸ hphase
  · exact h.knows j' phase' hj'

/-- What one event does to the store, and what the requests know then. -/
theorem Sane.continues_step {s : TokenSystem} (h : Sane s) {e : TokenEvent} (he : SparesRevocations s e) :
    Continues s (s.step secret e) := by
  have hdoes : ∀ e : Event TokenStore String ℕ, (∀ store, e ≠ .write store) →
      Continues s (s.does secret e) := by
    intro e hne
    refine h.continues ?_ rfl
    rw [TokenSystem.does, Protocol.source_step]
    split
    · exact absurd rfl (hne _)
    · rfl
  have hself : Continues s s := h.continues rfl rfl
  cases e with
  | lookUp i rawToken => exact hdoes (.lookUp i rawToken) fun _ h ↦ nomatch h
  | advance i => exact hdoes (.advance i) fun _ h ↦ nomatch h
  | request j r =>
    rw [TokenSystem.step]
    split
    · exact hself
    · exact hself.setRequest (knows_start ..)
  | proceed j =>
    rw [TokenSystem.step]
    split
    · exact hself
    rename_i phase hphase
    have hnext := RequestPhase.follows_next h.distinct (h.knows j phase hphase)
      fun doc heq ↦ he doc (heq ▸ hphase)
    generalize heq : phase.next s.lookups.source = next at hnext
    obtain ⟨_ | effect, phase'⟩ := next
    · exact hself.setRequest hnext
    · obtain rfl | ⟨store, rfl⟩ := RequestPhase.next_effect heq
      · exact (hdoes .notify fun _ h ↦ nomatch h).setRequest hnext
      · have hwritten : Continues s (s.does secret (.write store)) :=
          ⟨hnext.1, fun j' phase'' hj' ↦ hnext.1.knows (h.knows j' phase'' hj')⟩
        exact hwritten.setRequest hnext.2
  | accounts users => exact h.continues rfl rfl
  | tick now => exact h.continues rfl rfl

theorem Sane.step {s : TokenSystem} (h : Sane s) {e : TokenEvent} (he : SparesRevocations s e) :
    Sane (s.step secret e) :=
  ⟨(h.continues_step he).follows.distinct h.distinct, (h.continues_step he).knows⟩

/-! ## After a revocation -/

/-- What has been answered stays answered. -/
theorem TokenSystem.answered_step {s : TokenSystem} {j : ℕ} {outcome : Except PyErr TokenChange}
    (h : s.requests j = some (.answered outcome)) (e : TokenEvent) :
    (s.step secret e).requests j = some (.answered outcome) := by
  have hset : ∀ (s' : TokenSystem) (j' : ℕ) (phase : RequestPhase), s'.requests = s.requests →
      (j = j' → phase = .answered outcome) →
      (s'.setRequest j' phase).requests j = some (.answered outcome) := by
    intro s' j' phase hrequests hphase
    have hat : (s'.setRequest j' phase).requests j = if j = j' then some phase else s'.requests j :=
      Function.update_apply ..
    rw [hat, hrequests]
    split
    · rename_i hj
      rw [hphase hj]
    · exact h
  cases e with
  | lookUp | advance | accounts | tick => exact h
  | request j' r =>
    rw [TokenSystem.step]
    split
    · exact h
    · rename_i hnone
      refine hset s j' _ rfl ?_
      rintro rfl
      exact absurd (by rw [h, Option.isSome_some]) hnone
  | proceed j' =>
    rw [TokenSystem.step]
    split
    · exact h
    rename_i phase hphase
    have hnext : j = j' → phase.next s.lookups.source = (none, .answered outcome) := by
      rintro rfl
      obtain rfl := Option.some.inj (hphase.symm.trans h)
      rfl
    split
    · rename_i phase' heq
      exact hset s j' phase' rfl fun hj ↦ (Prod.mk.inj ((hnext hj).symm.trans heq)).2.symm
    · rename_i effect phase' heq
      refine hset _ j' phase' rfl fun hj ↦ ?_
      cases (Prod.mk.inj ((hnext hj).symm.trans heq)).1

/-- What an event does to the cache is nothing, or one event of the cache; and only a task is
advanced by its own event. -/
theorem TokenSystem.lookups_step (s : TokenSystem) (e : TokenEvent) :
    (s.step secret e).lookups = s.lookups ∨
      ∃ e', (s.step secret e).lookups = (tokenCache secret).step s.lookups e' ∧
        ∀ i, e' = .advance i → e = .advance i := by
  cases e with
  | lookUp i rawToken => exact .inr ⟨.lookUp i rawToken, rfl, fun _ h ↦ nomatch h⟩
  | advance i => exact .inr ⟨.advance i, rfl, fun i' h ↦ by cases h; rfl⟩
  | request j r =>
    rw [step]
    split <;> exact .inl rfl
  | proceed j =>
    rw [step]
    split
    · exact .inl rfl
    split
    · exact .inl rfl
    · rename_i effect phase' heq
      refine .inr ⟨effect, rfl, fun i h ↦ ?_⟩
      obtain rfl | ⟨store, rfl⟩ := RequestPhase.next_effect heq <;> cases h
  | accounts users => exact .inr ⟨.write _, rfl, fun _ h ↦ nomatch h⟩
  | tick now => exact .inr ⟨.write _, rfl, fun _ h ↦ nomatch h⟩

/-- An invariant of the cache that holds under its own events holds under those of the process. -/
theorem TokenSystem.settled_step {s : TokenSystem} {Clean : TokenStore → Prop}
    {Q : TokenMap → Prop} {old : ℕ → Prop} (hload : loadTokens.Yields Clean Q)
    (h : DirtyCache.Settled (tokenCache secret) Clean Q old s.lookups) {e : TokenEvent}
    (hadvance : ∀ i, e = .advance i → DirtyCache.Timely Clean s.lookups (.advance i))
    (hclean : Clean (s.step secret e).lookups.source) :
    DirtyCache.Settled (tokenCache secret) Clean Q old (s.step secret e).lookups := by
  obtain heq | ⟨e', heq, he'⟩ : (s.step secret e).lookups = s.lookups ∨ _ := s.lookups_step e
  · rwa [heq]
  rw [heq] at hclean ⊢
  refine h.step hload ?_
  cases e' with
  | lookUp i rawToken => trivial
  | advance i => exact hadvance i (he' i rfl)
  | write store => exact hclean
  | notify => trivial

/-- What holds of the process at any time. -/
structure AtWork (secret : String) (s : TokenSystem) : Prop where
  sane : Sane s
  settled : DirtyCache.Settled (tokenCache secret) (fun _ ↦ True) (fun _ ↦ True) (fun _ ↦ False) s.lookups

theorem AtWork.step {s : TokenSystem} (h : AtWork secret s) {e : TokenEvent} (he : SparesRevocations s e) :
    AtWork secret (s.step secret e) := by
  exact ⟨h.sane.step he, TokenSystem.settled_step loadTokens.yields_true h.settled
    (fun _ _ _ _ _ _ _ _ ↦ trivial) trivial⟩

/-- What holds from the moment on in which the request `j` has revoked a token. -/
structure AfterRevocation (secret : String) (j : ℕ) (token : ApiToken) (old : ℕ → Prop)
    (s : TokenSystem) : Prop where
  sane : Sane s
  revoked : s.requests j = some (.answered (.ok (.revoked token)))
  settled : DirtyCache.Settled (tokenCache secret) (Revoked token.hashedToken)
    (fun cache ↦ token.hashedToken ∉ cache) old s.lookups

theorem AfterRevocation.step {s : TokenSystem} {j : ℕ} {token : ApiToken} {old : ℕ → Prop}
    (h : AfterRevocation secret j token old s) {e : TokenEvent} (he : SparesRevocations s e) :
    AfterRevocation secret j token old (s.step secret e) := by
  have hsane : Sane (s.step secret e) := h.sane.step he
  have hrevoked : (s.step secret e).requests j = _ := TokenSystem.answered_step h.revoked e
  refine ⟨hsane, hrevoked, TokenSystem.settled_step (loadTokens_yields token.hashedToken) h.settled
    (fun i hi rawToken seen cache hloading ↦ ?_) (hsane.knows j _ hrevoked).2⟩
  subst hi
  exact he rawToken seen cache hloading j token h.revoked

/-- The request that has disabled a token marks the cache dirty. -/
theorem AtWork.revoke {s : TokenSystem} (h : AtWork secret s) {j : ℕ} {token : ApiToken}
    (hj : s.requests j = some (.notifying (.revoked token))) (he : SparesRevocations s (.proceed j)) :
    AfterRevocation secret j token (fun i ↦ (s.lookups.tasks i).isSome = true)
      (s.step secret (.proceed j)) := by
  have hsane : Sane (s.step secret (.proceed j)) := h.sane.step he
  have hstep : s.step secret (.proceed j) = (s.does secret .notify).setRequest j
      (.answered (.ok (.revoked token))) := by
    rw [TokenSystem.step, hj]
    rfl
  have hnotified : DirtyCache.Settled (tokenCache secret) (fun _ ↦ True) (fun _ ↦ True) (fun _ ↦ False)
      (s.step secret (.proceed j)).lookups := (h.step he).settled
  refine ⟨hsane, ?_, ?_⟩
  · rw [hstep]
    exact Function.update_self ..
  · rw [hstep] at hnotified ⊢
    exact hnotified.of_dirty (h.sane.knows j _ hj).2 rfl

/-- Nobody has asked for anything yet. -/
structure TokenSystem.Idle (s : TokenSystem) : Prop where
  tasks : ∀ i, s.lookups.tasks i = none
  requests : ∀ j, s.requests j = none

/-- Once a request has revoked a token, a lookup of the token that has not started by then finds
nobody; and every lookup ends. -/
structure RevocationsKept (secret : String) (s : TokenSystem) (events : List TokenEvent) :
    Prop where
  kept : ∀ before after j token, events = before ++ .proceed j :: after →
    (run (TokenSystem.step secret) s before).requests j = some (.notifying (.revoked token)) →
    ∀ i, (run (TokenSystem.step secret) s before).lookups.tasks i = none →
    ∀ rawToken a, hashApiToken secret rawToken = token.hashedToken →
      (run (TokenSystem.step secret) s events).lookups.tasks i = some (.answered rawToken a) →
      a = none
  ends : ∀ i task, (run (TokenSystem.step secret) s events).lookups.tasks i = some task →
    ∃ n a, (run (TokenSystem.step secret) s
      (events ++ List.replicate n (.advance i))).lookups.tasks i = some (.answered task.key a)

/-- Advancing one task of the process. -/
theorem TokenSystem.lookups_advances (s : TokenSystem) (i n : ℕ) :
    (run (TokenSystem.step secret) s (List.replicate n (.advance i))).lookups =
      advances (tokenCache secret) s.lookups i n := by
  induction n generalizing s with
  | zero => rfl
  | succ n ih => exact ih (s.step secret (.advance i))

/-- **No revocation is lost** in a run in which no load finishes after a revocation of a token that
it has read as enabled. -/
theorem revocations_kept {s : TokenSystem} (hidle : s.Idle)
    (hdistinct : s.lookups.source.DistinctHashes) {events : List TokenEvent}
    (h : Guarded (TokenSystem.step secret) SparesRevocations s events) :
    RevocationsKept secret s events := by
  have hstart : AtWork secret s := by
    refine ⟨⟨hdistinct, fun j phase hj ↦ ?_⟩, settled_of_no_tasks trivial (fun _ ↦ trivial)
      hidle.tasks⟩
    cases (hidle.requests j).symm.trans hj
  refine ⟨?_, fun i task hi ↦ ?_⟩
  · rintro before after j token rfl hj i hi rawToken a hhash ha
    obtain ⟨hbefore, hproceed, hafter⟩ := guarded_append.1 h
    have hwork := hbefore.induction (fun _ _ hs he ↦ hs.step he) hstart
    have hrevoked := hafter.induction (fun _ _ hs he ↦ hs.step he) (hwork.revoke hj hproceed)
    rw [run_append, run_cons] at ha
    have hold : ¬ ((run (TokenSystem.step secret) s before).lookups.tasks i).isSome = true := by
      rw [hi]
      exact Bool.false_ne_true
    obtain ⟨cache, hcache, rfl⟩ := hrevoked.settled.tasks i _ ha hold
    exact Std.ExtTreeMap.getElem?_eq_none (hhash ▸ hcache)
  · obtain ⟨n, a, hn⟩ := exists_answered (tokenCache secret) hi
    refine ⟨n, a, ?_⟩
    rwa [run_append, TokenSystem.lookups_advances]

end

/-! ## Two runs -/

section

attribute [local instance] UnicodeData.ascii

/-- A token. -/
def Sample.apiToken : ApiToken where
  id := ⟨1⟩
  userId := ⟨2⟩
  name := "logger"
  tokenPrefix := "AAAAAAAA"
  hashedToken := hashApiToken "secret" "ollog_AAAAAAAA"
  createdAt := combineUtc 738885 0

/-- A process with one token, right after its start. -/
def Sample.tokenSystem : TokenSystem where
  lookups := {
    source := ⟨[Sample.apiToken], [Sample.storedUser], combineUtc 738885 0⟩
    cache := ⟨∅, true⟩
    tasks := fun _ ↦ none }
  requests _ := none

/-- The token is revoked. -/
def Sample.revocation : List TokenEvent :=
  [.request 0 (.revoke Sample.storedUser (ObjectId.str ⟨1⟩)), .proceed 0, .proceed 0, .proceed 0]

/-- What a finished lookup has answered. -/
def Sample.answerOf (s : TokenSystem) (i : ℕ) : Option (String × Option StoredUser) :=
  match s.lookups.tasks i with
  | some (.answered rawToken a) => some (rawToken, a)
  | _ => none

/-- A load that finishes has seen no enabled token at all, and a new token has a new hash. -/
def Sample.harmless (s : TokenSystem) : TokenEvent → Bool
  | .advance i =>
    match s.lookups.tasks i with
    | some (.loading _ seen (.done _)) => seen.all fun store ↦ store.tokens.all fun t ↦ !t.enabled
    | _ => true
  | .proceed j =>
    match s.requests j with
    | some (.inserting doc) =>
      s.lookups.source.tokens.all fun t ↦ t.hashedToken != doc.hashedToken
    | _ => true
  | _ => true

theorem sparesRevocations_of_harmless {s : TokenSystem} {e : TokenEvent}
    (h : Sample.harmless s e = true) : SparesRevocations s e := by
  cases e with
  | advance i =>
    intro rawToken seen cache hi _ _ _ store hstore t ht _
    simp only [Sample.harmless, hi, List.all_eq_true, Bool.not_eq_true'] at h
    exact h store hstore t ht
  | proceed j =>
    intro doc hj t ht
    simp only [Sample.harmless, hj, List.all_eq_true, bne_iff_ne] at h
    exact h t ht
  | lookUp | request | accounts | tick => trivial

theorem revocation_kept_before_lookup : RevocationsKept "secret" Sample.tokenSystem
    (Sample.revocation ++
      [.lookUp 0 "ollog_AAAAAAAA", .advance 0, .advance 0, .advance 0, .advance 0]) := by
  have hdistinct : Sample.tokenSystem.lookups.source.DistinctHashes := List.pairwise_singleton _ _
  have hharmless : Guarded (TokenSystem.step "secret") (fun s e ↦ Sample.harmless s e = true)
      Sample.tokenSystem (Sample.revocation ++
        [.lookUp 0 "ollog_AAAAAAAA", .advance 0, .advance 0, .advance 0, .advance 0]) := by
    decide +kernel
  exact revocations_kept ⟨fun _ ↦ rfl, fun _ ↦ rfl⟩ hdistinct
    (hharmless.mono fun _ _ ↦ sparesRevocations_of_harmless)

/-- The load reads the token, the token is revoked, and the load finishes. -/
theorem revocation_lost : ¬ RevocationsKept "secret" Sample.tokenSystem
    ([.lookUp 0 "ollog_AAAAAAAA", .advance 0, .advance 0] ++ Sample.revocation ++
      [.advance 0, .advance 0, .advance 0, .lookUp 1 "ollog_AAAAAAAA", .advance 1, .advance 1]) := by
  intro h
  have hnotifying : (run (TokenSystem.step "secret") Sample.tokenSystem
      ([.lookUp 0 "ollog_AAAAAAAA", .advance 0, .advance 0] ++ Sample.revocation.dropLast)).requests
      0 = some (.notifying (.revoked Sample.apiToken)) := by decide +kernel
  have hnew : ((run (TokenSystem.step "secret") Sample.tokenSystem
      ([.lookUp 0 "ollog_AAAAAAAA", .advance 0, .advance 0] ++
        Sample.revocation.dropLast)).lookups.tasks 1).isNone = true := by decide +kernel
  have hfound : Sample.answerOf (run (TokenSystem.step "secret") Sample.tokenSystem
      ([.lookUp 0 "ollog_AAAAAAAA", .advance 0, .advance 0] ++ Sample.revocation ++
        [.advance 0, .advance 0, .advance 0, .lookUp 1 "ollog_AAAAAAAA", .advance 1, .advance 1])) 1
      = some ("ollog_AAAAAAAA", some Sample.storedUser) := by decide +kernel
  rw [Sample.answerOf] at hfound
  split at hfound
  · rename_i rawToken a ha
    obtain ⟨rfl, rfl⟩ := Prod.mk.inj (Option.some.inj hfound)
    cases h.kept _ _ 0 Sample.apiToken rfl hnotifying 1 (Option.isNone_iff_eq_none.1 hnew)
      "ollog_AAAAAAAA" _ rfl ha
  · cases hfound

end

end Ollog

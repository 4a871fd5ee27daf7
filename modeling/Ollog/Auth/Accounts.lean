import Ollog.Auth.Users
import Ollog.Migration.Collections

/-!
# Accounts that can log

Three writers create accounts: the REST endpoint and the page of the admin interface, and the start
of the application.  None of them looks at what a user name is made of, but the name of the user's
collection is derived from it, and `qso_collection_name` takes letters, digits, `_` and `-` only.
An account with any other name cannot log, and one shared QSO of its callsign keeps the application
from starting.

`CanLog` is what ought to hold of the accounts, and `canLog_iff` says when it does.
-/

set_option autoImplicit false

namespace Ollog

open Effects

/-! ## Creating accounts -/

/-- What creates an account. -/
inductive AccountRequest where
  /-- `POST /api/admin/users/`. -/
  | create (oid : ObjectId) (body : CreateUserRequest)
  /-- `POST /admin/ui/users/create`. -/
  | createUi (oid : ObjectId) (form : CreateUserRequest)
  /-- The start of a process. -/
  | bootstrap (oid : ObjectId) (settings : AdminSettings)

section

variable [UnicodeData]

/-- `create_user` of the admin pages.  FastAPI takes an empty form field for a missing one. -/
def createUserUi (oid : ObjectId) (form : CreateUserRequest) (users : List StoredUser) :
    Except PyErr (List StoredUser) :=
  if form.username = "" then .error (.http 422 (.dict [("missing", .str "username")]))
  else if form.callsign = "" then .error (.http 422 (.dict [("missing", .str "callsign")]))
  else if (findByUsername users form.username).isSome then
    .error (.http 409 (.str ("Username '" ++ form.username ++ "' already exists")))
  else insertUser users {
    id := oid
    profile := { username := form.username, callsign := upper form.callsign } }

/-- What a request does to the accounts. -/
def AccountRequest.apply (users : List StoredUser) : AccountRequest →
    Except PyErr (List StoredUser)
  | create oid body => createUser oid body users
  | createUi oid form => createUserUi oid form users
  | bootstrap oid settings => bootstrapAdmin oid settings users

/-- The accounts after a request; one that is refused leaves them as they are. -/
def accountStep (users : List StoredUser) (request : AccountRequest) : List StoredUser :=
  match request.apply users with
  | .ok users' => users'
  | .error _ => users

/-! ## What a request does -/

omit [UnicodeData] in
theorem insertUser_eq_ok {users users' : List StoredUser} {user : StoredUser}
    (h : insertUser users user = .ok users') :
    users' = users ++ [user] ∧ ∀ u ∈ users, u.profile.username ≠ user.profile.username := by
  rw [insertUser] at h
  split at h
  · cases h
  rename_i hfree
  split at h
  · cases h
  cases h
  refine ⟨rfl, fun u hu heq ↦ hfree (List.any_eq_true.2 ⟨u, hu, decide_eq_true heq⟩)⟩

/-- **A request adds one account at most**, under a user name that nobody has. -/
theorem apply_eq_ok {users users' : List StoredUser} {request : AccountRequest}
    (h : request.apply users = .ok users') :
    users' = users ∨ ∃ user, users' = users ++ [user] ∧
      ∀ u ∈ users, u.profile.username ≠ user.profile.username := by
  cases request with
  | create oid body =>
    rw [AccountRequest.apply, createUser] at h
    split at h
    · cases h
    · exact .inr ⟨_, insertUser_eq_ok h⟩
  | createUi oid form =>
    rw [AccountRequest.apply, createUserUi] at h
    split at h
    · cases h
    split at h
    · cases h
    split at h
    · cases h
    · exact .inr ⟨_, insertUser_eq_ok h⟩
  | bootstrap oid settings =>
    rw [AccountRequest.apply] at h
    unfold bootstrapAdmin at h
    split at h
    · split at h
      · exact .inl (Except.ok.inj h).symm
      split at h
      · exact .inl (Except.ok.inj h).symm
      · exact .inr ⟨_, insertUser_eq_ok h⟩
    · exact .inl (Except.ok.inj h).symm

/-- The users are told apart by their names. -/
def DistinctNames (users : List StoredUser) : Prop :=
  users.Pairwise fun u u' ↦ u.profile.username ≠ u'.profile.username

theorem distinctNames_run (requests : List AccountRequest) :
    DistinctNames (run accountStep [] requests) := by
  refine run_induction (I := DistinctNames) (fun users request h ↦ ?_) List.Pairwise.nil requests
  rw [accountStep]
  split
  · rename_i users' hok
    obtain rfl | ⟨user, rfl, hfresh⟩ := apply_eq_ok hok
    · exact h
    · refine List.pairwise_append.2 ⟨h, List.pairwise_singleton _ _, fun u hu u' hu' ↦ ?_⟩
      rw [List.mem_singleton.1 hu']
      exact hfresh u hu
  · exact h

end

/-! ## Names of collections -/

/-- A user name a collection can be named after. -/
def LogName (username : String) : Prop :=
  username ≠ "" ∧ ∀ c ∈ username.toList, safeUsernameChar c = true

theorem isSpace_of_safeUsernameChar {c : Char} (h : safeUsernameChar c = true) :
    isSpace c = false := by
  have hascii : c.toNat < 128 := by
    simp only [safeUsernameChar, charRange, Bool.or_eq_true, Bool.and_eq_true, decide_eq_true_eq,
      beq_iff_eq] at h
    obtain (((⟨-, h⟩ | ⟨-, h⟩) | ⟨-, h⟩) | rfl) | rfl := h
    · exact Nat.lt_of_le_of_lt h (by decide)
    · exact Nat.lt_of_le_of_lt h (by decide)
    · exact Nat.lt_of_le_of_lt h (by decide)
    · decide
    · decide
  have hchars : ∀ n < 128, safeUsernameChar (Char.ofNat n) = true →
      isSpace (Char.ofNat n) = false := by decide
  have hc := hchars c.toNat hascii
  rw [Char.ofNat_toNat] at hc
  exact hc h

/-- `qso_collection_name` accepts what `_SAFE_USERNAME_RE` matches, and nothing else. -/
theorem exists_collection_iff {username : String} :
    (∃ coll, getUserQsoCollection username = .ok coll) ↔ LogName username := by
  constructor
  · rintro ⟨coll, hcoll⟩
    have hok := getUserQsoCollection_eq_ok.1 hcoll
    obtain ⟨hname, hsafe⟩ := qsoCollectionName_eq_ok hok
    refine ⟨fun hempty ↦ ?_, fun c hc ↦ hsafe c ?_⟩
    · rw [hempty] at hok
      cases hok
    · rw [hname, String.toList_append]
      exact List.mem_append_left _ hc
  · rintro ⟨hne, hsafe⟩
    have hall : (username ++ "_qsos").toList.all safeUsernameChar = true := by
      rw [String.toList_append, List.all_append, List.all_eq_true.2 hsafe]
      decide
    have hnot : ∀ c ∈ (username ++ "_qsos").toList, c ∉ ['.', '$', Char.ofNat 0] := by
      intro c hc hmem
      have hreserved : ['.', '$', Char.ofNat 0].any safeUsernameChar = false := by decide
      exact absurd (List.all_eq_true.1 hall c hc) (List.any_eq_false.1 hreserved c hmem)
    have hstrip : username = strip username := by
      rw [strip, stripChars_eq_self fun c hc ↦ isSpace_of_safeUsernameChar (hsafe c hc),
        String.ofList_toList]
    have hzero : (username ++ "_qsos").toList.contains (Char.ofNat 0) = false := by
      rw [← Bool.not_eq_true, List.contains_iff_mem]
      exact fun hmem ↦ hnot _ hmem (by decide)
    have hdollar : containsText "$" (username ++ "_qsos") = false := by
      rw [containsText, decide_eq_false_iff_not]
      exact fun hsub ↦ hnot '$' (hsub.subset (by decide)) (by decide)
    have hsystem : "system.".toList.isPrefixOf (username ++ "_qsos").toList = false := by
      rw [← Bool.not_eq_true, List.isPrefixOf_iff_prefix]
      exact fun hpre ↦ hnot '.' (hpre.subset (by decide)) (by decide)
    have hok : qsoCollectionName username = .ok (username ++ "_qsos") := by
      simp only [qsoCollectionName, if_neg hne, List.all_eq_true.2 hsafe, hzero, hdollar, hsystem]
      rw [if_neg (not_not.2 hstrip)]
      rfl
    exact ⟨⟨_, collectionNameOk_of_user hok⟩, getUserQsoCollection_eq_ok.2 hok⟩

section

variable [UnicodeData]

/-- The migration does not raise what `qso_collection_name` raises, if that raises nothing. -/
theorem migrate_raises {users : List User} {db : Database}
    (hnames : ∀ user ∈ users, ∃ coll, getUserQsoCollection user.username = .ok coll) :
    wp (migrateSharedQsosToUserCollections users false) (fun _ _ ↦ True)
      (fun exc _ ↦ ∀ msg, exc ≠ .valueError msg) db := by
  simp only [migrateSharedQsosToUserCollections, wp_bind, wp_get]
  refine wp_mono (wp_foldlM (fun _ _ ↦ True) (fun s doc _ db' _ ↦ ?_) trivial)
    (fun _ _ _ ↦ trivial) fun _ _ h ↦ h
  refine wp_migrateDoc (fun _ _ _ _ _ ↦ trivial) (fun user exc huser hexc ↦ ?_)
    (fun user coll exc _ _ _ hindex msg ↦ ?_) fun _ _ _ _ _ _ _ _ _ _ ↦
      ⟨fun _ _ _ ↦ trivial, fun _ _ ↦ trivial⟩
  · obtain ⟨coll, hcoll⟩ := hnames user (mem_of_usersByCallsign huser)
    cases hcoll.symm.trans hexc
  · rintro rfl
    rw [Collection.createIndexes] at hindex
    split at hindex <;> cases hindex

/-- **Every account can log**: it has a collection, which is no other account's, and it does not keep
the application from starting, whatever shared QSOs there are. -/
structure CanLog (users : List StoredUser) : Prop where
  collection : ∀ u ∈ users, ∃ coll, getUserQsoCollection u.profile.username = .ok coll
  distinct : users.Pairwise fun u u' ↦
    ∀ coll coll', getUserQsoCollection u.profile.username = .ok coll →
      getUserQsoCollection u'.profile.username = .ok coll' → coll.1 ≠ coll'.1
  starts : ∀ db, wp (migrateSharedQsosToUserCollections (users.map (·.profile)) false)
    (fun _ _ ↦ True) (fun exc _ ↦ ∀ msg, exc ≠ .valueError msg) db

/-- **The accounts a program has created can log** if and only if it was asked for none but user
names that are not empty and made of letters, digits, `_` and `-`. -/
theorem canLog_iff (requests : List AccountRequest) :
    CanLog (run accountStep [] requests) ↔
      ∀ u ∈ run accountStep [] requests, LogName u.profile.username := by
  constructor
  · exact fun h u hu ↦ exists_collection_iff.1 (h.collection u hu)
  · intro hnames
    have hcollection := fun u hu ↦ exists_collection_iff.2 (hnames u hu)
    refine ⟨hcollection, ?_, fun db ↦ migrate_raises fun user huser ↦ ?_⟩
    · refine (distinctNames_run requests).imp fun {u u'} hne coll coll' hcoll hcoll' heq ↦ ?_
      exact hne (username_eq_of_collection hcoll' hcoll heq)
    · obtain ⟨u, hu, rfl⟩ := List.mem_map.1 huser
      exact hcollection u hu

end

section

attribute [local instance] UnicodeData.ascii

/-- An account whose user name has a blank in it cannot log, and with a shared QSO of its callsign
the application does not start. -/
theorem not_canLog_of_blank :
    let users := run accountStep [] [.create ⟨7⟩ ⟨"w1 aw", "w1aw"⟩]
    ¬ CanLog users ∧ ∃ msg db', migrateSharedQsosToUserCollections (users.map (·.profile)) false
      (Sample.shared [Sample.sharedDoc]) = .error (.valueError msg) db' := by
  intro users
  constructor
  · intro h
    have huser : ∃ u ∈ users, u.profile.username = "w1 aw" := by decide +kernel
    obtain ⟨u, hu, hname⟩ := huser
    have hlog := (exists_collection_iff.1 (h.collection u hu)).2
    rw [hname] at hlog
    have hblank := hlog ' ' (by decide)
    cases hblank
  · have hraises : (match migrateSharedQsosToUserCollections (users.map (·.profile)) false
        (Sample.shared [Sample.sharedDoc]) with
      | .error (.valueError _) _ => true
      | _ => false) = true := by decide +kernel
    split at hraises
    · rename_i msg db' hrun
      exact ⟨msg, db', hrun⟩
    · cases hraises

end

end Ollog

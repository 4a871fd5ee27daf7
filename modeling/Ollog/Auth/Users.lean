import Ollog.Python.Exceptions
import Ollog.Qso.CustomFields

/-!
# Accounts

The `users` collection, and what the admin endpoints do to it.  An account is created, enabled and
disabled; it is never removed, and neither its user name nor its callsign changes.
-/

set_option autoImplicit false

namespace Ollog

/-- A document of the `users` collection. -/
structure StoredUser where
  id : ObjectId
  profile : User
  role : String := "operator"
  enabled : Bool := true
  deriving DecidableEq, Repr

/-- `User.find_one({"_id": oid})`. -/
def findUser (users : List StoredUser) (oid : ObjectId) : Option StoredUser :=
  users.find? fun u ↦ u.id = oid

/-- `User.find_one({"username": username})`. -/
def findByUsername (users : List StoredUser) (username : String) : Option StoredUser :=
  users.find? fun u ↦ u.profile.username = username

/-- `User.find_one({"callsign": callsign})`. -/
def findByCallsign (users : List StoredUser) (callsign : String) : Option StoredUser :=
  users.find? fun u ↦ u.profile.callsign = callsign

/-- `user.insert()`, under the unique indexes on `_id` and on `username`. -/
def insertUser (users : List StoredUser) (user : StoredUser) : Except PyErr (List StoredUser) :=
  if users.any fun u ↦ u.profile.username = user.profile.username then
    .error (.duplicateKey "username_unique")
  else if users.any fun u ↦ u.id = user.id then .error (.duplicateKey "_id_")
  else .ok (users ++ [user])

/-- `user.set({User.enabled: enabled})`. -/
def setEnabled (users : List StoredUser) (oid : ObjectId) (enabled : Bool) : List StoredUser :=
  users.map fun u ↦ if u.id = oid then { u with enabled := enabled } else u

/-- What `create_user` is sent, the password apart. -/
structure CreateUserRequest where
  username : String
  callsign : String

section

variable [UnicodeData]

/-- `create_user` of the admin API. -/
def createUser (oid : ObjectId) (body : CreateUserRequest) (users : List StoredUser) :
    Except PyErr (List StoredUser) :=
  if (findByUsername users body.username).isSome then
    .error (.http 409 (.str "Username already exists"))
  else insertUser users {
    id := oid
    profile := { username := body.username, callsign := upper body.callsign } }

/-- The account the settings name for the first admin. -/
structure AdminSettings where
  adminUsername : Option String := none
  adminPassword : Option String := none
  adminCallsign : Option String := none

/-- `_bootstrap_admin`, run at the start of each process. -/
def bootstrapAdmin (oid : ObjectId) (settings : AdminSettings) (users : List StoredUser) :
    Except PyErr (List StoredUser) :=
  match settings with
  | ⟨some username, some password, some callsign⟩ =>
    if username = "" ∨ password = "" ∨ callsign = "" then .ok users
    else if (findByUsername users username).isSome then .ok users
    else insertUser users {
      id := oid
      profile := { username, callsign := upper callsign }
      role := "admin" }
  | _ => .ok users

end

/-- Enable or disable an account, unless it is the last enabled admin that would be disabled. -/
def changeEnabled (user : StoredUser) (enabled : Bool) (users : List StoredUser) :
    Except PyErr (List StoredUser) :=
  if !enabled && user.role == "admin" &&
      (users.filter fun u ↦ u.role == "admin" && u.enabled).length ≤ 1 then
    .error (.http 409 (.str "Cannot disable the last enabled admin"))
  else .ok (setEnabled users user.id enabled)

/-- `set_user_enabled` of the admin API. -/
def setUserEnabled (username : String) (enabled : Bool) (users : List StoredUser) :
    Except PyErr (List StoredUser) :=
  match findByUsername users username with
  | none => .error (.http 404 (.str "User not found"))
  | some user => changeEnabled user enabled users

/-- `toggle_user` of the admin pages. -/
def toggleUser (username : String) (users : List StoredUser) : Except PyErr (List StoredUser) :=
  match findByUsername users username with
  | none => .error (.http 404 (.str ("User '" ++ username ++ "' not found")))
  | some user => changeEnabled user (!user.enabled) users

/-- The users are told apart by their ids. -/
def DistinctIds (users : List StoredUser) : Prop := users.Pairwise fun u u' ↦ u.id ≠ u'.id

theorem mem_of_findUser {users : List StoredUser} {oid : ObjectId} {user : StoredUser}
    (h : findUser users oid = some user) : user ∈ users ∧ user.id = oid :=
  ⟨List.mem_of_find?_eq_some h, by simpa using List.find?_some h⟩

/-- An account is found by its id. -/
theorem findUser_of_mem {users : List StoredUser} (hdistinct : DistinctIds users)
    {user : StoredUser} (h : user ∈ users) : findUser users user.id = some user := by
  induction users with
  | nil => cases h
  | cons u users ih =>
    obtain ⟨hu, husers⟩ := List.pairwise_cons.1 hdistinct
    rw [findUser, List.find?_cons]
    obtain rfl | h := List.mem_cons.1 h
    · rw [decide_eq_true rfl]
    · rw [decide_eq_false (hu user h)]
      exact ih husers h

theorem distinctIds_setEnabled {users : List StoredUser} (h : DistinctIds users) (oid : ObjectId)
    (enabled : Bool) : DistinctIds (setEnabled users oid enabled) := by
  refine List.pairwise_map.2 (h.imp fun {u u'} hne ↦ ?_)
  split <;> split <;> exact hne

/-- What becomes of the account that is found. -/
theorem findUser_setEnabled (users : List StoredUser) (oid other : ObjectId) (enabled : Bool) :
    findUser (setEnabled users oid enabled) other =
      (findUser users other).map fun u ↦ if u.id = oid then { u with enabled := enabled } else u := by
  rw [findUser, setEnabled, List.find?_map, findUser]
  refine congrArg (Option.map _) (congrArg (fun p ↦ users.find? p) ?_)
  funext u
  simp only [Function.comp]
  split <;> rfl

/-- Enabling or disabling an account changes that account alone. -/
theorem changeEnabled_eq_ok {user : StoredUser} {enabled : Bool} {users users' : List StoredUser}
    (h : changeEnabled user enabled users = .ok users') :
    users' = setEnabled users user.id enabled := by
  rw [changeEnabled] at h
  split at h
  · cases h
  · exact (Except.ok.inj h).symm

/-- An account. -/
def Sample.storedUser : StoredUser where
  id := ⟨2⟩
  profile := { username := "w1aw", callsign := "W1AW" }

end Ollog

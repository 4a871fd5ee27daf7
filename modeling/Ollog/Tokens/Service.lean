import Ollog.Auth.Users
import Ollog.Python.Sha256
import Ollog.Python.Utf8

/-!
# API tokens

A token is a random text with the prefix `ollog_`.  It is shown once, when it is created; what is
stored is its HMAC, and the first eight characters after the prefix, by which the HTTP side looks
its document up.
-/

set_option autoImplicit false

namespace Ollog

/-- A document of the `api_tokens` collection. -/
structure ApiToken where
  id : ObjectId
  userId : ObjectId
  name : String
  tokenPrefix : String
  hashedToken : String
  createdAt : DateTime
  lastUsedAt : Option DateTime := none
  expiresAt : Option DateTime := none
  enabled : Bool := true
  deriving DecidableEq, Repr

/-- The document as the database gives it back. -/
def ApiToken.toStored (token : ApiToken) : ApiToken := { token with
  createdAt := token.createdAt.toStored
  lastUsedAt := token.lastUsedAt.map DateTime.toStored
  expiresAt := token.expiresAt.map DateTime.toStored }

/-! ## `tokens/service.py` -/

/-- `generate_api_token`, for a body drawn by `secrets.token_urlsafe`. -/
def generateApiToken (body : String) : String × String :=
  ("ollog_" ++ body, String.ofList (body.toList.take 8))

/-- `hash_api_token`. -/
def hashApiToken (secret token : String) : String :=
  hmacSha256Hex (encodeUtf8 secret.toList) (encodeUtf8 token.toList)

/-- `verify_api_token`. -/
def verifyApiToken (secret token hashed : String) : Bool := hashApiToken secret token == hashed

/-- A character of a token's name: `[a-zA-Z0-9_-]`. -/
def tokenNameChar (c : Char) : Bool :=
  charRange 'a' 'z' c || charRange 'A' 'Z' c || charRange '0' '9' c || c == '_' || c == '-'

/-- `validate_token_name`.  The `$` of the pattern also matches before a last newline. -/
def validateTokenName (name : String) : Except PyErr String :=
  let cs := if name.toList.getLast? = some '\n' then name.toList.dropLast else name.toList
  if cs.all tokenNameChar ∧ 1 ≤ cs.length ∧ cs.length ≤ 80 then .ok name
  else .error (.valueError
    "Token name must be 1-80 characters: alphanumeric, hyphens, underscores only")

/-- `token_is_active`. -/
def tokenIsActive (now : DateTime) (token : ApiToken) : Bool :=
  token.enabled && match token.expiresAt with
    | none => true
    | some expires =>
      -- A naive datetime is read as UTC.
      let expires := if expires.offset = none then { expires with offset := some 0 } else expires
      !decide (expires.utc ≤ now.utc)

/-! ## `tokens/router.py` -/

section

variable [UnicodeData]

/-- `datetime.strptime(text, "%Y-%m-%d").replace(tzinfo=timezone.utc)`. -/
def strptimeIsoDate (text : String) : Except PyErr DateTime := do
  match ← strptimeFields [fieldY, [[charRange '-' '-']], fieldMonth, [[charRange '-' '-']],
      fieldDay] "%Y-%m-%d" text with
  | [y, _, m, _, d] =>
    if y = 0 then .error (.valueError "year 0 is out of range")
    else if d = 0 ∨ daysInMonth y m < d then .error (.valueError "day is out of range for month")
    else .ok (combineUtc (dayNumber y m d) 0)
  | _ => .error (.valueError "unreachable")

/-- The expiry date a form names. -/
def parseExpiresAt (expiresAt : Option String) : Except PyErr (Option DateTime) :=
  match expiresAt with
  | none => .ok none
  | some text =>
    if strip text = "" then .ok none
    else match strptimeIsoDate (strip text) with
      | .ok expires => .ok (some expires)
      | .error _ => .error (.http 422 (.str "Invalid date format: use YYYY-MM-DD"))

/-- What `create_token` is sent, and what it draws. -/
structure CreateTokenRequest where
  name : String
  expiresAt : Option String
  /-- The body of the new token. -/
  body : String
  /-- The id of its document. -/
  oid : ObjectId

/-- The document `create_token` inserts. -/
def newToken (secret : String) (now : DateTime) (user : StoredUser) (req : CreateTokenRequest) :
    Except PyErr ApiToken := do
  match validateTokenName req.name with
  | .error exc => .error (.http 422 (.str exc.str))
  | .ok name =>
    let expiresAt ← parseExpiresAt req.expiresAt
    let (fullToken, tokenPrefix) := generateApiToken req.body
    return {
      id := req.oid
      userId := user.id
      name
      tokenPrefix
      hashedToken := hashApiToken secret fullToken
      createdAt := now
      expiresAt }

end

/-- `doc.insert()`. -/
def insertToken (tokens : List ApiToken) (doc : ApiToken) : Except PyErr (List ApiToken) :=
  if tokens.any fun t ↦ t.id = doc.id then .error (.duplicateKey "_id_")
  else .ok (tokens ++ [doc.toStored])

/-- The token `revoke_token` is about, if it is the user's own and enabled. -/
def ownToken (tokens : List ApiToken) (user : StoredUser) (oid : ObjectId) :
    Except PyErr ApiToken :=
  match tokens.find? fun t ↦ t.id = oid with
  | none => .error (.http 404 (.str "Token not found"))
  | some token =>
    if token.userId ≠ user.id ∨ token.enabled = false then
      .error (.http 404 (.str "Token not found"))
    else .ok token

/-- `token.set({ApiToken.enabled: False})`. -/
def disableToken (tokens : List ApiToken) (oid : ObjectId) : List ApiToken :=
  tokens.map fun t ↦ if t.id = oid then { t with enabled := false } else t

/-- The id a path names. -/
def tokenOid (tokenId : String) : Except PyErr ObjectId :=
  match ObjectId.ofText tokenId with
  | none => .error (.http 404 (.str "Token not found"))
  | some oid => .ok oid

/-! ## What is served -/

/-- The part of the database that decides who a token is, and the clock. -/
structure TokenStore where
  tokens : List ApiToken
  users : List StoredUser
  now : DateTime

/-- No two tokens have the same hash. -/
def TokenStore.DistinctHashes (store : TokenStore) : Prop :=
  store.tokens.Pairwise fun t t' ↦ t.hashedToken ≠ t'.hashedToken

/-- The user of a token, if the token is active and the user enabled. -/
def TokenStore.owner (store : TokenStore) (token : ApiToken) : Option StoredUser :=
  if tokenIsActive store.now token then
    (findUser store.users token.userId).filter (·.enabled)
  else none

/-- A token that is looked up by its hash. -/
def TokenStore.named (store : TokenStore) (hashed : String) : Option ApiToken :=
  store.tokens.find? fun t ↦ t.hashedToken = hashed

theorem TokenStore.named_of_mem {store : TokenStore} (hdistinct : store.DistinctHashes)
    {token : ApiToken} (h : token ∈ store.tokens) :
    store.named token.hashedToken = some token := by
  obtain ⟨tokens, users, now⟩ := store
  rw [named]
  dsimp only at h ⊢
  rw [DistinctHashes] at hdistinct
  induction tokens with
  | nil => cases h
  | cons t tokens ih =>
    obtain ⟨ht, htokens⟩ := List.pairwise_cons.1 hdistinct
    rw [List.find?_cons]
    obtain rfl | h := List.mem_cons.1 h
    · rw [decide_eq_true rfl]
    · rw [decide_eq_false (ht token h)]
      exact ih htokens h

end Ollog

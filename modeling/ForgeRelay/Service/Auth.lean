import ForgeRelay.Core.Hex
import ForgeRelay.Core.Path
import ForgeRelay.Service.Messages
import ForgeRelay.Storage.Tables

/-!
# Users, tokens and the audit trail

The `AuthRegistry`: its tables and its operations. Each operation holds the registry's own mutex
and is given the clock's reading; one that throws has changed nothing.
-/

namespace ForgeRelay

inductive Role
  | reader | publisher | admin
  deriving DecidableEq, Repr

def Role.toU8 : Role → UInt8
  | .reader => 0
  | .publisher => 1
  | .admin => 2

/-- `static_cast<Role>` of a byte, as the database stores it: `role_name` writes any other number
as `Reader`. -/
def Role.ofU8 : UInt8 → Role
  | 1 => .publisher
  | 2 => .admin
  | _ => .reader

/-- A row of `user`. -/
structure UserRow where
  id : Nat
  username : Bytes
  role : Role
  enabled : Bool
  createdAt : Int64
  deriving DecidableEq, Repr

/-- A row of `token`. -/
structure TokenRow where
  id : Nat
  userId : Nat
  tokenHash : Bytes
  expiresAt : Int64
  revokedAt : Option Int64
  createdAt : Int64
  deriving DecidableEq, Repr

/-- A row of `audit_event`, whose id nobody reads. -/
structure AuditRow where
  actor : Bytes
  action : Bytes
  target : Bytes
  result : Bytes
  createdAt : Int64
  deriving DecidableEq, Repr

/-- The registry's tables, with the largest ids that `AUTOINCREMENT` has given out. -/
structure AuthDb where
  user : List UserRow
  userSeq : Nat
  token : List TokenRow
  tokenSeq : Nat
  auditEvent : List AuditRow
  deriving DecidableEq, Repr

def AuthDb.empty : AuthDb := ⟨[], 0, [], 0, []⟩

/-- What a token's row says about whether it is revoked: NULL reads as 0. -/
def TokenRow.revoked (t : TokenRow) : Bool := t.revokedAt.getD 0 != 0

def AuthDb.userAdd (db : AuthDb) (now : Int64) (username : Bytes) (role : Role) :
    Except Error AuthDb :=
  if username = [] ∨ frIdentValidComponent username = false then
    .error (.of .eArg "username must be a valid component (1-64 chars)")
  else if db.user.any (·.username == username) then
    .error (stepError "UNIQUE constraint failed: user.username")
  else if db.userSeq < maxRowid then
    .ok { db with
      user := db.user ++ [⟨db.userSeq + 1, username, role, true, now⟩]
      userSeq := db.userSeq + 1 }
  else .error (stepError "database or disk is full")

def AuthDb.userDisable (db : AuthDb) (username : Bytes) : Except Error AuthDb :=
  if db.user.any (·.username == username) then
    .ok { db with
      user := Table.update (·.username == username) (fun u => { u with enabled := false }) db.user }
  else .error (.ofMessage .eNotfound (ascii "user not found: " ++ username))

def AuthDb.userList (db : AuthDb) : List UserItem :=
  (db.user.insertionSort fun a b => a.id ≤ b.id).map fun u =>
    ⟨u.username, u.role.toU8, u.enabled, u.createdAt⟩

/-- The token that `token_create` makes of its random bytes. -/
def tokenText (random : Bytes) : Bytes := ascii "fr_" ++ frHexEncode random

/-- `AuthRegistry::token_create`, with the bytes that `random_bytes` returns. -/
def AuthDb.tokenCreate (sha : Sha256) (db : AuthDb) (now : Int64) (random username : Bytes)
    (ttlHours : UInt32) : Except Error (Bytes × AuthDb) :=
  match db.user.find? (·.username == username) with
  | none => .error (.ofMessage .eNotfound (ascii "user not found: " ++ username))
  | some user =>
    if user.enabled = false then .error (.ofMessage .eArg (ascii "user is disabled: " ++ username))
    else
      let token := tokenText random
      let expires := if ttlHours = 0 then 0 else now + ttlHours.toUInt64.toInt64 * 3600
      if db.token.any (·.tokenHash == sha.hex token) then
        .error (stepError "UNIQUE constraint failed: token.token_hash")
      else if db.tokenSeq < maxRowid then
        .ok (token, { db with
          token := db.token ++ [⟨db.tokenSeq + 1, user.id, sha.hex token, expires, none, now⟩]
          tokenSeq := db.tokenSeq + 1 })
      else .error (stepError "database or disk is full")

/-- `FROM token t JOIN user u ON u.id = t.user_id`. -/
def AuthDb.owner? (db : AuthDb) (t : TokenRow) : Option UserRow := db.user.find? (·.id == t.userId)

def AuthDb.tokenList (db : AuthDb) (username : Bytes) : List TokenItem :=
  (db.token.insertionSort fun a b => a.id ≤ b.id).filterMap fun t =>
    match db.owner? t with
    | some u =>
      if u.username = username then
        some ⟨UInt64.ofNat t.id, u.username, t.createdAt, t.expiresAt, t.revoked⟩
      else none
    | none => none

/-- The row that `WHERE id=?2 AND revoked_at IS NULL` selects. -/
def TokenRow.isRevocable (tokenId : UInt64) (t : TokenRow) : Bool :=
  decide ((t.id : Int) = tokenId.toInt64.toInt) && t.revokedAt.isNone

def AuthDb.tokenRevoke (db : AuthDb) (now : Int64) (tokenId : UInt64) : Except Error AuthDb :=
  if db.token.any (TokenRow.isRevocable tokenId) then
    .ok { db with
      token := Table.update (TokenRow.isRevocable tokenId)
        (fun t => { t with revokedAt := some now }) db.token }
  else .error (.of .eNotfound "token not found or already revoked")

/-- The row of `verify`'s query. -/
def AuthDb.tokenOwner? (sha : Sha256) (db : AuthDb) (token : Bytes) : Option (TokenRow × UserRow) :=
  db.token.findSome? fun t =>
    if t.tokenHash = sha.hex token then (db.owner? t).map (t, ·) else none

def AuthDb.verify (sha : Sha256) (db : AuthDb) (now : Int64) (token : Bytes) :
    Except Error AuthOk :=
  if token = [] then .error (.of .eUnauthenticated "empty token")
  else
    match db.tokenOwner? sha token with
    | none => .error (.of .eUnauthenticated "unknown token")
    | some (t, u) =>
      if t.revoked then .error (.of .eUnauthenticated "token revoked")
      else if t.expiresAt ≠ 0 ∧ t.expiresAt ≤ now then
        .error (.of .eUnauthenticated "token expired")
      else if u.enabled = false then .error (.of .eUnauthenticated "user disabled")
      else .ok ⟨u.username, u.role.toU8⟩

def AuthDb.audit (db : AuthDb) (now : Int64) (actor action target result : Bytes) : AuthDb :=
  { db with auditEvent := db.auditEvent ++ [⟨actor, action, target, result, now⟩] }

/-- `AuthRegistry::active_session_count`, over the sessions of the same database file. -/
def activeSessionCount (db : Db) : Int64 :=
  Int64.ofNat (db.uploadSession.countP (·.state == .open))

end ForgeRelay

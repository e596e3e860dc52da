import AfkClient.Library.Table
import AfkClient.Model.Users

/-! Users with their password hashes, login sessions, and the accounts that users may see. -/

namespace AfkClient.Auth

structure UserRow where
  id : String
  username : String
  passwordHash : String
  role : Role
  status : UserStatus
  deriving DecidableEq, Repr

structure SessionRow where
  id : String
  userId : String
  csrfToken : String
  expiresAt : ℕ
  deriving DecidableEq, Repr

structure Assignment where
  userId : String
  minecraftAccountId : String
  deriving DecidableEq, Repr

structure Database where
  users : Table UserRow.id
  sessions : Table SessionRow.id
  assignments : List Assignment
  deriving DecidableEq

structure SessionContext where
  sessionId : String
  csrfToken : String
  userId : String
  username : String
  role : Role
  status : UserStatus
  deriving DecidableEq, Repr

/-- The context of a session that exists, has not expired and whose user is not disabled. An
expired session is deleted besides. -/
def Database.getSession (db : Database) (now : ℕ) (sessionId : String) : Option SessionContext := do
  let session ← db.sessions.find? sessionId
  let user ← db.users.find? session.userId
  if session.expiresAt < now then none
  else if user.status = .disabled then none
  else some ⟨session.id, session.csrfToken, user.id, user.username, user.role, user.status⟩

def Database.canAccessAccount (db : Database) (session : SessionContext) (id : String) : Bool :=
  session.role = .admin ||
    db.assignments.any fun a => a.userId = session.userId && a.minecraftAccountId = id

end AfkClient.Auth

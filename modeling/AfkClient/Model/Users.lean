import AfkClient.Library.Run
import AfkClient.Library.Table

/-! The requests by which administrators edit and delete users. A request runs from one
database query to the next; between two of its queries others may run. -/

namespace AfkClient

inductive Role where
  | admin | user
  deriving DecidableEq, Repr

inductive UserStatus where
  | active | disabled
  deriving DecidableEq, Repr

structure User where
  id : String
  username : String
  minecraftUsername : Option String := none
  role : Role := .user
  status : UserStatus := .active
  deriving DecidableEq, Repr

/-- A login session with the token that its requests must echo. -/
structure LoginSession where
  id : String
  csrfToken : String
  userId : String
  deriving DecidableEq, Repr

structure UpdateUserInput where
  password : Option String := none
  role : Option Role := none
  status : Option UserStatus := none
  minecraftUsername : Option (Option String) := none
  deriving DecidableEq, Repr

def User.isActiveAdmin (u : User) : Bool := u.role == .admin && u.status == .active

def UpdateUserInput.apply (input : UpdateUserInput) (u : User) : User :=
  { u with
    role := input.role.getD u.role
    status := input.status.getD u.status
    minecraftUsername := input.minecraftUsername.getD u.minecraftUsername }

theorem UpdateUserInput.apply_id (input : UpdateUserInput) (u : User) : (input.apply u).id = u.id :=
  rfl

/-- Whether the input may take an administrator away. -/
def UpdateUserInput.guarded (input : UpdateUserInput) : Bool :=
  input.role == some .user || input.status == some .disabled

def UpdateUserInput.forcesLogin (input : UpdateUserInput) : Bool :=
  input.status == some .disabled || input.role.isSome || input.password.any (! ·.isEmpty)

namespace Users

structure Database where
  users : Table User.id
  sessions : List LoginSession
  deriving DecidableEq

inductive Reply where
  | user (user : User)
  | noContent
  | error (code : ℕ) (message : String)
  /-- The handler threw. -/
  | thrown
  deriving DecidableEq, Repr

inductive Request where
  | patch (id : String) (body : UpdateUserInput)
  | delete (id : String)
  deriving DecidableEq, Repr

/-- The query a request waits for, with what the rest of its handler needs. -/
inductive Query where
  | getSession (sessionId : String) (csrfToken : Option String) (request : Request)
  | patchTarget (id : String) (body : UpdateUserInput)
  | patchCountAdmins (id : String) (body : UpdateUserInput)
  | updateUser (id : String) (body : UpdateUserInput)
  | destroySessionsOfUpdated (user : User)
  | deleteTarget (id : String)
  | deleteCountAdmins (id : String)
  | destroySessionsOfDeleted (id : String)
  | deleteUser (id : String)
  deriving DecidableEq, Repr

/-! ### Queries -/

def Database.countAdmins (db : Database) : ℕ := db.users.count User.isActiveAdmin

def Database.destroyAllUserSessions (db : Database) (userId : String) : Database :=
  { db with sessions := db.sessions.filter (·.userId ≠ userId) }

def Database.updateUser (db : Database) (id : String) (body : UpdateUserInput) : Database :=
  { db with users := db.users.update id body.apply body.apply_id }

def Database.deleteUser (db : Database) (id : String) : Database :=
  { db with users := db.users.delete id }

/-- The session, if its user exists and is not disabled. -/
def Database.getSession (db : Database) (sessionId : String) : Option (LoginSession × User) := do
  let session ← db.sessions.find? (·.id = sessionId)
  let user ← db.users.find? session.userId
  if user.status = .disabled then none else some (session, user)

/-- The handler runs up to its first query. -/
def Request.begin (user : User) : Request → Query ⊕ Reply
  | .patch id body =>
      .inl (if body.guarded then .patchTarget id body else .updateUser id body)
  | .delete id =>
      if id = user.id then .inr (.error 400 "You cannot delete your own account")
      else .inl (.deleteTarget id)

/-- `requireAdmin` and then `requireCsrf` before the handler. -/
def authorize (session : Option (LoginSession × User)) (csrfToken : Option String)
    (request : Request) : Query ⊕ Reply :=
  match session with
  | none => .inr (.error 401 "Unauthorized")
  | some (session, user) =>
      if user.role ≠ .admin then .inr (.error 403 "Forbidden: admin role required")
      else if csrfToken ≠ some session.csrfToken then .inr (.error 403 "Invalid or missing CSRF token")
      else request.begin user

/-- The query runs, and its request goes on to its next query or its reply. -/
def Query.exec (db : Database) : Query → Database × (Query ⊕ Reply)
  | .getSession sessionId csrfToken request =>
      (db, authorize (db.getSession sessionId) csrfToken request)
  | .patchTarget id body =>
      (db, .inl (if (db.users.find? id).any (·.role == .admin) then .patchCountAdmins id body
        else .updateUser id body))
  | .patchCountAdmins id body =>
      (db, if db.countAdmins ≤ 1 then .inr (.error 400 "Cannot remove the last remaining admin")
        else .inl (.updateUser id body))
  | .updateUser id body =>
      match db.users.find? id with
      | none => (db, .inr .thrown)
      | some user =>
          let updated := body.apply user
          (db.updateUser id body,
            if body.forcesLogin then .inl (.destroySessionsOfUpdated updated)
            else .inr (.user updated))
  | .destroySessionsOfUpdated user => (db.destroyAllUserSessions user.id, .inr (.user user))
  | .deleteTarget id =>
      (db, .inl (if (db.users.find? id).any (·.role == .admin) then .deleteCountAdmins id
        else .destroySessionsOfDeleted id))
  | .deleteCountAdmins id =>
      (db, if db.countAdmins ≤ 1 then .inr (.error 400 "Cannot delete the last remaining admin")
        else .inl (.destroySessionsOfDeleted id))
  | .destroySessionsOfDeleted id => (db.destroyAllUserSessions id, .inl (.deleteUser id))
  | .deleteUser id =>
      match db.users.find? id with
      | none => (db, .inr .thrown)
      | some _ => (db.deleteUser id, .inr .noContent)

/-! ### Requests in flight -/

/-- A request in flight and the query it waits for. -/
structure Pending where
  request : ℕ
  query : Query
  deriving DecidableEq, Repr

structure Server where
  db : Database
  pending : Table Pending.request := Table.empty
  replies : List (ℕ × Reply) := []
  deriving DecidableEq

inductive Input where
  /-- A request arrives; a number already in flight is ignored. -/
  | request (number : ℕ) (sessionId : String) (csrfToken : Option String) (request : Request)
  /-- The query that the request waits for runs. -/
  | query (number : ℕ)
  /-- Somebody logs in. -/
  | login (session : LoginSession)
  deriving DecidableEq, Repr

def Server.step (s : Server) : Input → Server
  | .request number sessionId csrfToken request =>
      { s with pending := s.pending.insert ⟨number, .getSession sessionId csrfToken request⟩ }
  | .query number =>
      match s.pending.find? number with
      | none => s
      | some pending =>
          match pending.query.exec s.db with
          | (db, .inl query) =>
              { s with db := db, pending := s.pending.update number ({ · with query := query }) fun _ => rfl }
          | (db, .inr reply) =>
              { s with
                db := db, pending := s.pending.delete number
                replies := (number, reply) :: s.replies }
  | .login session => { s with db := { s.db with sessions := session :: s.db.sessions } }

end Users

end AfkClient

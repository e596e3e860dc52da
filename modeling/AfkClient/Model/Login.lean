import AfkClient.Library.Run
import AfkClient.Library.Text
import AfkClient.Model.AuthSession
import AfkClient.Model.Client

/-! Logins, changes of passwords and the administration of users. A request runs from one await to
the next; between two of its awaits others may run, and hashing takes any time. -/

namespace AfkClient.Login

open Auth

/-- The password library and the configuration. -/
structure LoginConfig where
  verify : String → String → Bool
  dummyPasswordHash : String
  sessionTtl : ℕ

structure ChangePassword where
  currentPassword : String
  newPassword : String
  deriving DecidableEq, Repr

inductive Reply where
  | ok
  | error (code : ℕ) (message : String)
  /-- The handler threw. -/
  | thrown
  deriving DecidableEq, Repr

inductive Request where
  | login (username password : String)
  | changePassword (sessionId : String) (csrfToken : Option String) (body : ChangePassword)
  | patchUser (sessionId : String) (csrfToken : Option String) (id : String)
      (body : UpdateUserInput)
  deriving DecidableEq, Repr

/-- What a request awaits, with what the rest of its handler needs. The time at which a login has
read the hash, or at which a hash was stored, goes along. -/
inductive Wait where
  | loginMatches (username password : String)
  | loginUser (id password : String)
  | loginVerify (user : Option UserRow) (read : ℕ) (password : String)
  | loginSession (user : UserRow) (read : ℕ)
  | loginUpdate (user : UserRow)
  | changeAuth (sessionId : String) (csrfToken : Option String) (body : ChangePassword)
  | changeUser (userId : String) (body : ChangePassword)
  | changeVerify (user : UserRow) (body : ChangePassword)
  | changeHash (user : UserRow)
  | changeStore (user : UserRow) (passwordHash : String)
  | changeDestroy (userId : String) (stored : ℕ)
  | changeSession (userId : String) (stored : ℕ)
  | patchAuth (sessionId : String) (csrfToken : Option String) (id : String)
      (body : UpdateUserInput)
  | patchTarget (id : String) (body : UpdateUserInput)
  | patchCount (id : String) (body : UpdateUserInput)
  | patchHash (id : String) (body : UpdateUserInput)
  | patchStore (id : String) (body : UpdateUserInput) (passwordHash : Option String)
  | patchDestroy (id : String) (stored : ℕ)
  deriving DecidableEq, Repr

/-- A login whose password was verified, and the session it got. -/
structure LoginRecord where
  sessionId : String
  userId : String
  /-- When the hash was read. -/
  read : ℕ
  deriving DecidableEq, Repr

/-- A password that was stored. -/
structure PasswordRecord where
  userId : String
  stored : ℕ
  /-- The request that stored it deleted the sessions of the user. -/
  cleared : Bool := false
  /-- The request that stored it was answered with success. -/
  completed : Bool := false
  deriving DecidableEq, Repr

structure Pending where
  request : ℕ
  wait : Wait
  deriving DecidableEq, Repr

structure LoginServer where
  db : Database
  now : ℕ
  /-- The number of steps. -/
  clock : ℕ := 1
  arrived : ℕ := 0
  pending : List Pending := []
  /-- The identifiers of all sessions; none is given out twice. -/
  used : List String
  logins : List LoginRecord
  passwords : List PasswordRecord := []
  replies : List (ℕ × Reply) := []
  deriving DecidableEq

/-- The sessions that are there belong to earlier logins. -/
def LoginServer.init (db : Database) (now : ℕ) : LoginServer where
  db := db
  now := now
  used := db.sessions.rows.map SessionRow.id
  logins := db.sessions.rows.map fun session => ⟨session.id, session.userId, 0⟩

/-! ### Queries -/

/-- `"username" = name COLLATE NOCASE`, and at most two of the matches. -/
def findUsernameMatches (db : Database) (username : String) : List String :=
  let name := String.ofList ((Text.trim username.toList).map Char.toLower)
  ((db.users.rows.filter fun user => user.username.toLower = name).map UserRow.id).take 2

def storePassword (userId passwordHash : String) (s : LoginServer) : LoginServer :=
  { s with
    db.users := s.db.users.update userId ({ · with passwordHash }) fun _ => rfl
    passwords := s.passwords ++ [{ userId, stored := s.clock }] }

/-- The sessions are deleted by the request that stored its hash at `stored`, if it stored one. -/
def destroyAllUserSessions (userId : String) (stored : ℕ) (s : LoginServer) : LoginServer :=
  { s with
    db.sessions := s.db.sessions.deleteWhere (·.userId = userId)
    passwords := s.passwords.map fun p =>
      if p.stored = stored then { p with cleared := true } else p }

/-- Where the user is there: the database refuses a session of no user. -/
def createSession (cfg : LoginConfig) (userId id csrfToken : String) (s : LoginServer) :
    LoginServer :=
  { s with
    db.sessions := s.db.sessions.insert ⟨id, userId, csrfToken, s.now + cfg.sessionTtl⟩
    used := id :: s.used }

def addLogin (sessionId userId : String) (read : ℕ) (s : LoginServer) : LoginServer :=
  { s with logins := s.logins ++ [⟨sessionId, userId, read⟩] }

/-- The request that stored the password is answered. -/
def complete (stored : ℕ) (s : LoginServer) : LoginServer :=
  { s with passwords := s.passwords.map fun p =>
      if p.stored = stored then { p with completed := true } else p }

/-- The update of a user, less the password. -/
def storeUpdate (id : String) (body : UpdateUserInput) (s : LoginServer) : LoginServer :=
  let apply (user : UserRow) : UserRow :=
    { user with role := body.role.getD user.role, status := body.status.getD user.status }
  { s with db.users := s.db.users.update id apply fun _ => rfl }

def isActiveAdmin (user : UserRow) : Bool := user.role = .admin && user.status = .active

/-! ### Handlers -/

/-- The checks of `requireAuth` and `requireCsrf`. -/
def authenticate (session : Option SessionContext) (csrfToken : Option String) :
    Except Reply SessionContext :=
  match session with
  | none => .error (.error 401 "Unauthorized")
  | some session =>
      if csrfToken.getD "" = "" ∨ csrfToken ≠ some session.csrfToken then
        .error (.error 403 "Invalid or missing CSRF token")
      else .ok session

def within (text : String) (min max : ℕ) : Bool :=
  min ≤ Client.utf16Length text && Client.utf16Length text ≤ max

def validationFailed : Reply := .error 400 "Validation failed"

/-- The first await of a request. The body is parsed after the session is known. -/
def begin : Request → Wait ⊕ Reply
  | .login username password =>
      let name := String.ofList (Text.trim username.toList)
      if within name 1 64 && within password 1 256 then .inl (.loginMatches name password)
      else .inr validationFailed
  | .changePassword sessionId csrfToken body => .inl (.changeAuth sessionId csrfToken body)
  | .patchUser sessionId csrfToken id body => .inl (.patchAuth sessionId csrfToken id body)

/-- The part of `updateUser` before its query. -/
def beginUpdate (id : String) (body : UpdateUserInput) : Wait :=
  if body.password.isSome then .patchHash id body else .patchStore id body none

/-- What the outside decides: a new session's identifier and token, and a new hash. -/
structure Fresh where
  id : String
  csrfToken : String
  passwordHash : String
  deriving DecidableEq, Repr

/-- The await ends, and the request goes on to the next one or to its reply. -/
def exec (cfg : LoginConfig) (fresh : Fresh) (s : LoginServer) : Wait → LoginServer × (Wait ⊕ Reply)
  | .loginMatches username password =>
      (s, .inl (match findUsernameMatches s.db username with
        | [id] => .loginUser id password
        | _ => .loginVerify none s.clock password))
  | .loginUser id password => (s, .inl (.loginVerify (s.db.users.find? id) s.clock password))
  | .loginVerify user read password =>
      let valid := cfg.verify ((user.map UserRow.passwordHash).getD cfg.dummyPasswordHash) password
      (s, match user with
        | none => .inr (.error 401 "Invalid username or password")
        | some user =>
            if user.status = .disabled || ! valid then .inr
              (.error 401 "Invalid username or password")
            else .inl (.loginSession user read))
  | .loginSession user read =>
      if (s.db.users.find? user.id).isSome then
        (addLogin fresh.id user.id read (createSession cfg user.id fresh.id fresh.csrfToken s),
          .inl (.loginUpdate user))
      else (s, .inr .thrown)
  | .loginUpdate user => (s, .inr (if (s.db.users.find? user.id).isSome then .ok else .thrown))
  | .changeAuth sessionId csrfToken body =>
      (s, match authenticate (s.db.getSession s.now sessionId) csrfToken with
        | .error reply => .inr reply
        | .ok session =>
            if within body.currentPassword 1 256 && within body.newPassword 8 256 then
              .inl (.changeUser session.userId body)
            else .inr validationFailed)
  | .changeUser userId body =>
      (s, match s.db.users.find? userId with
        | none => .inr (.error 401 "Current password is incorrect")
        | some user => .inl (.changeVerify user body))
  | .changeVerify user body =>
      (s, if cfg.verify user.passwordHash body.currentPassword then .inl (.changeHash user)
        else .inr (.error 401 "Current password is incorrect"))
  | .changeHash user => (s, .inl (.changeStore user fresh.passwordHash))
  | .changeStore user passwordHash =>
      if (s.db.users.find? user.id).isSome then
        (storePassword user.id passwordHash s, .inl (.changeDestroy user.id s.clock))
      else (s, .inr .thrown)
  | .changeDestroy userId stored =>
      (destroyAllUserSessions userId stored s, .inl (.changeSession userId stored))
  | .changeSession userId stored =>
      if (s.db.users.find? userId).isSome then
        (complete stored (createSession cfg userId fresh.id fresh.csrfToken s), .inr .ok)
      else (s, .inr .thrown)
  | .patchAuth sessionId csrfToken id body =>
      (s, match s.db.getSession s.now sessionId with
        | none => .inr (.error 401 "Unauthorized")
        | some session =>
            if session.role ≠ .admin then .inr (.error 403 "Forbidden: admin role required")
            else match authenticate (some session) csrfToken with
              | .error reply => .inr reply
              | .ok _ =>
                  if body.password.all (within · 8 256) then
                    .inl (if body.guarded then .patchTarget id body else beginUpdate id body)
                  else .inr validationFailed)
  | .patchTarget id body =>
      (s, .inl (if (s.db.users.find? id).any (·.role = .admin) then .patchCount id body
        else beginUpdate id body))
  | .patchCount id body =>
      (s, if s.db.users.count isActiveAdmin ≤ 1 then
          .inr (.error 400 "Cannot remove the last remaining admin")
        else .inl (beginUpdate id body))
  | .patchHash id body => (s, .inl (.patchStore id body (some fresh.passwordHash)))
  | .patchStore id body passwordHash =>
      if (s.db.users.find? id).isSome then
        let t := storeUpdate id body s
        (match passwordHash with
          | some passwordHash => storePassword id passwordHash t
          | none => t,
          if body.forcesLogin then .inl (.patchDestroy id s.clock) else .inr .ok)
      else (s, .inr .thrown)
  | .patchDestroy id stored => (complete stored (destroyAllUserSessions id stored s), .inr .ok)

inductive Input where
  | request (request : Request)
  /-- An await of the request ends. -/
  | resume (request : ℕ) (fresh : Fresh)
  /-- An administrator or a clean-up deletes users or sessions, or time passes. -/
  | deleteUser (id : String)
  | deleteSession (id : String)
  | tick (now : ℕ)
  deriving DecidableEq, Repr

/-- Identifiers of sessions are new. -/
def step (cfg : LoginConfig) (s : LoginServer) : Input → LoginServer
  | .request request =>
      let t := { s with arrived := s.arrived + 1, clock := s.clock + 1 }
      match begin request with
      | .inl wait => { t with pending := s.pending ++ [⟨s.arrived, wait⟩] }
      | .inr reply => { t with replies := s.replies ++ [(s.arrived, reply)] }
  | .resume request fresh =>
      match s.pending.find? (·.request = request) with
      | none => s
      | some p =>
          if fresh.id ∈ s.used then s
          else
            let (t, next) := exec cfg fresh s p.wait
            let t := { t with clock := s.clock + 1 }
            match next with
            | .inl wait =>
                { t with pending := s.pending.map fun q =>
                    if q.request = request then { q with wait } else q }
            | .inr reply =>
                { t with
                  pending := s.pending.filter (·.request ≠ request)
                  replies := s.replies ++ [(request, reply)] }
  | .deleteUser id => { s with
      db.users := s.db.users.delete id
      db.sessions := s.db.sessions.deleteWhere (·.userId = id)
      clock := s.clock + 1 }
  | .deleteSession id => { s with db.sessions := s.db.sessions.delete id, clock := s.clock + 1 }
  | .tick now => { s with now, clock := s.clock + 1 }

end AfkClient.Login

import AfkClient.Library.Run
import AfkClient.Model.AuthSession

/-! The queue of a socket: every action waits for its turn, and then for a new check of the session
and the access. What runs between two awaits is one step. -/

namespace AfkClient.Auth

inductive ReadyState where
  | open | closing | closed
  deriving DecidableEq, Repr

structure Access where
  accountId : Option String := none
  adminOnly : Bool := false
  deriving DecidableEq, Repr

/-- The account whose access is checked; an empty name counts as none. -/
def Access.account (access : Access) : Option String := access.accountId.filter (· ≠ "")

/-- Where the action at the head of the queue is. -/
inductive Phase where
  /-- The jobs before it have ended. -/
  | reached
  /-- `await getSession(sessionId)` -/
  | lookup
  /-- The session, or nothing if the query has failed. -/
  | looked (answer : Option (Option SessionContext))
  /-- `await canAccessAccount(session, access.accountId)` -/
  | check (session : SessionContext)
  | checked (session : SessionContext) (answer : Option Bool)
  /-- `await action(session)` -/
  | acting
  /-- `finally` is due. -/
  | ended
  deriving DecidableEq, Repr

structure Job where
  action : ℕ
  phase : Phase
  deriving DecidableEq, Repr

structure Revocation where
  sessionId : Option String := none
  userId : Option String := none
  deriving DecidableEq, Repr

/-- What has happened; the queries with the database and the time they ran at. -/
inductive Event where
  | reached (action : ℕ)
  | looked (action : ℕ) (db : Database) (now : ℕ)
  | checked (action : ℕ) (db : Database)
  | started (action : ℕ)
  | finished (action : ℕ)
  /-- A check of the action that did not succeed, or an action that threw. -/
  | failed (action : ℕ)
  | revoked
  | sent
  | called (unsubscribe : ℕ)
  deriving DecidableEq

structure Socket where
  ready : ReadyState := .open
  /-- The environment: the database and the clock. -/
  db : Database
  now : ℕ
  pending : ℕ := 0
  current : Option Job := none
  queue : List ℕ := []
  cleanup : List ℕ := []
  disposed : Bool := false
  /-- The calls of `run` that were not turned away, and those of `subscribe`. -/
  actions : ℕ := 0
  subscriptions : ℕ := 0
  log : List Event := []

/-- `socket.close()` leaves the open state at once. -/
def Socket.close (s : Socket) : Socket :=
  if s.ready = .open then { s with ready := .closing } else s

def Socket.emit (s : Socket) (event : Event) : Socket := { s with log := s.log ++ [event] }

/-- `subscribe(unsubscribe)`; the functions are numbered. -/
def subscribe (s : Socket) : Socket :=
  let unsubscribe := s.subscriptions
  let s := { s with subscriptions := s.subscriptions + 1 }
  if s.disposed then s.emit (.called unsubscribe) else
    { s with cleanup := s.cleanup ++ [unsubscribe] }

/-- `run(action)`; the actions are numbered. -/
def runAction (s : Socket) : Socket :=
  if s.ready ≠ .open then s
  else if s.pending ≥ 64 then s.close
  else
    let action := s.actions
    let s := { s with pending := s.pending + 1, actions := s.actions + 1 }
    match s.current with
    | none => { s with current := some ⟨action, .reached⟩ }
    | some _ => { s with queue := s.queue ++ [action] }

def send (bufferedAmount : ℕ) (s : Socket) : Socket :=
  if s.ready ≠ .open then s
  else if bufferedAmount > 2 * 1024 * 1024 then s.close
  else s.emit .sent

/-- The listener of `onSessionsRevoked`. -/
def concerns (initial : SessionContext) (revocation : Revocation) : Bool :=
  (revocation.sessionId.getD "" = "" && revocation.userId.getD "" = "") ||
    revocation.sessionId = some initial.sessionId || revocation.userId = some initial.userId

/-- The first subscriptions are those of the listener and of the timer. -/
def authorizeSocket (initial : Option SessionContext) (db : Database) (now : ℕ) : Option Socket :=
  initial.map fun _ => subscribe (subscribe { db, now })

def Socket.setPhase (s : Socket) (action : ℕ) (phase : Phase) : Socket :=
  { s with current := some ⟨action, phase⟩ }

/-- The action may not run: the socket is closed. -/
def deny (action : ℕ) (s : Socket) : Socket :=
  ((s.emit (.failed action)).close).setPhase action .ended

/-- The action runs if the socket is still open. -/
def act (action : ℕ) (s : Socket) : Socket :=
  if s.ready = .open then (s.emit (.started action)).setPhase action .acting
  else s.setPhase action .ended

/-- What follows the lookup of the session. -/
def grant (access : Access) (action : ℕ) (session : SessionContext) (s : Socket) : Socket :=
  if access.adminOnly && session.role ≠ .admin then deny action s
  else match access.account with
    | none => act action s
    | some _ => s.setPhase action (.check session)

/-- The job at the head goes on, up to its next await. -/
def proceed (access : Access) (job : Job) (s : Socket) : Socket :=
  match job.phase with
  | .reached =>
      let s := s.emit (.reached job.action)
      s.setPhase job.action (if s.ready = .open then .lookup else .ended)
  | .looked (some (some session)) => grant access job.action session s
  | .looked _ => deny job.action s
  | .checked _ (some true) => act job.action s
  | .checked _ _ => deny job.action s
  | .ended =>
      { s with
        pending := s.pending - 1
        current := s.queue.head?.map fun action => ⟨action, .reached⟩
        queue := s.queue.tail }
  | .lookup | .check _ | .acting => s

/-- The database runs the query the job waits for, or the query fails. -/
def answer (initial : SessionContext) (access : Access) (job : Job) (ok : Bool) (s : Socket) :
    Socket :=
  match job.phase with
  | .lookup =>
      if ok then
        (s.emit (.looked job.action s.db s.now)).setPhase job.action
          (.looked (some (s.db.getSession s.now initial.sessionId)))
      else s.setPhase job.action (.looked none)
  | .check session =>
      if ok then
        (s.emit (.checked job.action s.db)).setPhase job.action
          (.checked session (access.account.map (s.db.canAccessAccount session)))
      else s.setPhase job.action (.checked session none)
  | _ => s

/-- The action at the head returns or throws. -/
def actionEnds (job : Job) (ok : Bool) (s : Socket) : Socket :=
  match job.phase with
  | .acting =>
      let s := s.emit (.finished job.action)
      if ok then s.setPhase job.action .ended else deny job.action s
  | _ => s

/-- The handler of the `close` event. -/
def onClose (s : Socket) : Socket :=
  { s with
    ready := .closed
    disposed := true
    cleanup := []
    log := s.log ++ s.cleanup.map .called }

inductive Input where
  /-- A call of `run`, by a route or by the timer. -/
  | run
  | send (bufferedAmount : ℕ)
  | subscribe
  | proceed
  | answer (ok : Bool)
  | actionEnds (ok : Bool)
  /-- Whatever others do to sessions, users and assignments. -/
  | change (db : Database) (now : ℕ)
  | revoke (revocation : Revocation)
  /-- A call of `socket.close` by a route, or an error of the socket. -/
  | close
  /-- The connection is closed. -/
  | closed

def step (initial : SessionContext) (access : Access) (s : Socket) : Input → Socket
  | .run => runAction s
  | .send bufferedAmount => send bufferedAmount s
  | .subscribe => subscribe s
  | .proceed => match s.current with
      | none => s
      | some job => proceed access job s
  | .answer ok => match s.current with
      | none => s
      | some job => answer initial access job ok s
  | .actionEnds ok => match s.current with
      | none => s
      | some job => actionEnds job ok s
  | .change db now => { s with db, now }
  | .revoke revocation =>
      if concerns initial revocation then (s.emit .revoked).close else s
  | .close => s.close
  | .closed => if s.ready = .closed then s else onClose s

end AfkClient.Auth

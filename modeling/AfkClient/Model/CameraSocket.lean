import AfkClient.Model.Authorization

/-! The socket of the live camera (`websocket/routes.ts`), over the queue of authorized actions.
The clock is that of the queue's environment. What a viewer is told besides frames has no content
here, and the streams themselves stand apart. -/

namespace AfkClient.CameraSocket

open Auth (SessionContext Access Socket Database Revocation)

variable {φ : Type}

/-- What an action of the queue does. -/
inductive Task (φ : Type)
  /-- The timer's check of the permissions. -/
  | check
  | start
  | ack (sequence : ℕ)
  | loading
  | frame (image : φ)
  | error

/-- The messages that were sent and the acknowledgements that were handled. -/
inductive Entry (φ : Type)
  | loading
  | offline
  | error
  | frame (sequence : ℕ) (image : φ) (time : ℕ)
  | ack (sequence : ℕ)

structure State (φ : Type) where
  socket : Socket
  /-- The status of the account is `ONLINE`. -/
  online : Bool
  sentSequence : ℕ := 0
  pendingSequence : ℕ := 0
  pendingSince : ℕ := 0
  messages : ℕ := 0
  windowStart : ℕ
  /-- The flag `pending`: a frame is queued. -/
  pending : Bool := false
  /-- The camera and the status of the account are subscribed. -/
  subscribed : Bool := false
  /-- The task of each action. -/
  jobs : List (Task φ) := []
  log : List (Entry φ) := []

namespace State

/-- `run(action)`; only an action that is not turned away has a number. -/
def run (task : Task φ) (s : State φ) : State φ :=
  { s with
    socket := Auth.runAction s.socket
    jobs := if s.socket.ready = .open ∧ s.socket.pending < 64 then s.jobs ++ [task] else s.jobs }

def send (bufferedAmount : ℕ) (entry : Entry φ) (s : State φ) : State φ :=
  { s with
    socket := Auth.send bufferedAmount s.socket
    log := if s.socket.ready = .open ∧ bufferedAmount ≤ 2 * 1024 * 1024 then s.log ++ [entry]
      else s.log }

def close (s : State φ) : State φ := { s with socket := s.socket.close }

/-- The route, with a session. -/
def init (db : Database) (now : ℕ) (online : Bool) : State φ :=
  run .start {
    socket := Auth.subscribe (Auth.subscribe { db, now })
    online := online
    windowStart := now }

/-- `frame`, once its turn has come. -/
def sendFrame (bufferedAmount : ℕ) (image : φ) (s : State φ) : State φ :=
  if s.pendingSequence ≠ 0 ∧ 15000 < s.socket.now - s.pendingSince then s.close
  else if s.pendingSequence ≠ 0 ∨ 64 * 1024 < bufferedAmount then s
  else
    { s with
      sentSequence := s.sentSequence + 1
      pendingSequence := s.sentSequence + 1
      pendingSince := s.socket.now }.send bufferedAmount
        (.frame (s.sentSequence + 1) image s.socket.now)

/-- The action of a task. -/
def act (bufferedAmount : ℕ) (task : Task φ) (s : State φ) : State φ :=
  match task with
  | .check => s
  | .start =>
      if s.online then
        let s := s.send bufferedAmount .loading
        { s with socket := Auth.subscribe (Auth.subscribe s.socket), subscribed := true }
      else (s.send bufferedAmount .offline).close
  | .ack sequence =>
      { s with
        pendingSequence := if sequence = s.pendingSequence then 0 else s.pendingSequence
        log := s.log ++ [.ack sequence] }
  | .loading => s.send bufferedAmount .loading
  | .frame image => { s.sendFrame bufferedAmount image with pending := false }
  | .error => (s.send bufferedAmount .error).close

/-- A message of the viewer; `none` if it is no acknowledgement. -/
def message (oversized : Bool) (content : Option ℤ) (s : State φ) : State φ :=
  let s :=
    if 1000 ≤ s.socket.now - s.windowStart then { s with messages := 0, windowStart := s.socket.now }
    else s
  if oversized then s.close
  else
    let s := { s with messages := s.messages + 1 }
    if 30 < s.messages then s.close
    else
      match content with
      | some sequence => if 1 ≤ sequence then s.run (.ack sequence.toNat) else s.close
      | none => s.close

/-- A frame of the stream. -/
def frame (image : φ) (s : State φ) : State φ :=
  if s.pending ∨ s.socket.ready ≠ .open then s else { s with pending := true }.run (.frame image)

def status (online : Bool) (bufferedAmount : ℕ) (s : State φ) : State φ :=
  let s := { s with online := online }
  if s.subscribed && !online then (s.send bufferedAmount .offline).close else s

end State

inductive Input (φ : Type)
  | message (oversized : Bool) (content : Option ℤ)
  | timer
  /-- The callbacks of the camera. -/
  | loading
  | frame (image : φ)
  | error
  | status (online : Bool) (bufferedAmount : ℕ)
  /-- The action at the head goes on; if it starts, it does its task. -/
  | proceed (bufferedAmount : ℕ)
  | answer (ok : Bool)
  | actionEnds (ok : Bool)
  | change (db : Database) (now : ℕ)
  | revoke (revocation : Revocation)
  | close
  | closed

variable (initial : SessionContext) (access : Access)

namespace State

/-- The socket alone. -/
def move (input : Auth.Input) (s : State φ) : State φ :=
  { s with socket := Auth.step initial access s.socket input }

/-- The action that starts when the head goes on. -/
def starting (s : State φ) : Option ℕ :=
  match s.socket.current, (Auth.step initial access s.socket .proceed).current with
  | some ⟨_, .acting⟩, _ => none
  | _, some ⟨action, .acting⟩ => some action
  | _, _ => none

def step (s : State φ) : Input φ → State φ
  | .message oversized content => s.message oversized content
  | .timer => s.run .check
  | .loading => if s.subscribed then s.run .loading else s
  | .frame image => if s.subscribed then s.frame image else s
  | .error => if s.subscribed then s.run .error else s
  | .status online bufferedAmount => s.status online bufferedAmount
  | .proceed bufferedAmount =>
      let t := s.move initial access .proceed
      match (s.starting initial access).bind (s.jobs[·]?) with
      | some task => t.act bufferedAmount task
      | none => t
  | .answer ok => s.move initial access (.answer ok)
  | .actionEnds ok => s.move initial access (.actionEnds ok)
  | .change db now => s.move initial access (.change db now)
  | .revoke revocation => s.move initial access (.revoke revocation)
  | .close => s.close
  | .closed =>
      if s.socket.ready = .closed then s
      else { s.move initial access .closed with subscribed := false }

end State

end AfkClient.CameraSocket

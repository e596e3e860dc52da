import AfkClient.Library.Json
import AfkClient.Library.Text
import AfkClient.Library.Utf8

/-! The controller of one session: lines of JSON on its standard input, a queue for the
session, and the end of its life. Inputs other than these are made by the session. -/

namespace AfkClient

inductive Signal where
  | name (name : String)
  | number (number : ℕ)
  deriving DecidableEq, Repr

inductive StdinState where
  | writable | broken | destroyed
  deriving DecidableEq, Repr

inductive ControllerEvent where
  | exit (code : Option ℤ) (signal : Option String)
  | close (code : Option ℤ) (signal : Option String)
  deriving DecidableEq, Repr

structure Controller where
  stdin : StdinState := .writable
  buffer : List Char := []
  receivedConfig : Bool := false
  aborted : Bool := false
  finished : Bool := false
  killed : Bool := false
  queued : List Json := []
  exitCode : Option ℤ := none
  signalCode : Option String := none
  /-- The microtask that tells of the end. -/
  ending : Option (Option ℤ × Option String) := none
  /-- The configurations with which `runSoulFire` was called. -/
  started : List Json := []
  /-- Everything that was put into the queue. -/
  accepted : List Json := []
  stdout : List Json := []
  events : List ControllerEvent := []

inductive ControllerInput where
  | write (chunk : List ℕ)
  | stdinFinish
  | kill (signal : Signal)
  /-- The session takes the next command. -/
  | shift
  | emitted (event : Json)
  /-- The session aborts, which ends it later. -/
  | abort
  | succeeded
  | failed (error : String)
  | microtask

/-- `command.type === "disconnect"` -/
def Json.isDisconnect : Json → Bool
  | .obj entries => match property entries "type" with
      | .str type => type = "disconnect"
      | _ => false
  | _ => false

def Json.isNull : Json → Bool
  | .null => true
  | _ => false

namespace Controller

open Text

def finish (s : Controller) (code : Option ℤ) (signal : Option String) : Controller :=
  if s.finished then s
  else { s with
    finished := true, aborted := true, queued := [], exitCode := code, signalCode := signal
    stdin := .destroyed, ending := some (code, signal) }

/-- The new state, and whether there was something to kill. -/
def kill (s : Controller) (signal : Signal) : Controller × Bool :=
  if s.finished then (s, false)
  else
    let s := { s with killed := true, aborted := true }
    let s :=
      if !s.receivedConfig || signal = .name "SIGKILL" || signal = .number 9 then
        s.finish none (some (match signal with | .name name => name | .number _ => "SIGKILL"))
      else s
    (s, true)

/-- `none` if the command has no properties to read. -/
def receive (s : Controller) (command : Json) : Option Controller :=
  if s.finished || s.aborted then some s
  else if !s.receivedConfig then
    some { s with receivedConfig := true, started := s.started ++ [command] }
  else if command.isNull then none
  else if command.isDisconnect then some (s.kill (.name "SIGTERM")).1
  else some { s with queued := s.queued ++ [command], accepted := s.accepted ++ [command] }

/-- The first line of a text, and what follows it. -/
def takeLine (text : List Char) : Option (List Char × List Char) :=
  match text.dropWhile (· ≠ '\n') with
  | _ :: rest => some (text.takeWhile (· ≠ '\n'), rest)
  | [] => none

/-- The loop over the lines of the buffer; `fuel` bounds their number. `none` stands for an
exception, behind which the buffer is as `s` has it. -/
def readLines : ℕ → Controller → Controller × Bool
  | 0, s => (s, true)
  | fuel + 1, s =>
      match takeLine s.buffer with
      | none => (s, true)
      | some (line, rest) =>
          let s := { s with buffer := rest }
          if trim line = [] then readLines fuel s
          else match (Json.parse line).bind s.receive with
            | some s => readLines fuel s
            | none => (s, false)

def write (s : Controller) (chunk : List ℕ) : Controller :=
  if s.stdin = .writable then
    let s := { s with buffer := s.buffer ++ Utf8.decode chunk }
    let (s, done) := readLines s.buffer.length s
    if done then s else { s with stdin := .broken }
  else s

/-- `connection_failed`, with the text of `soulFireError`. -/
def connectionFailed (error : String) : Json :=
  .obj [("type", .str "connection_failed"), ("error", .str error)]

def step (s : Controller) (i : ControllerInput) : Controller :=
  match i with
  | .write chunk => s.write chunk
  | .stdinFinish => if s.stdin = .writable then (s.kill (.name "SIGTERM")).1 else s
  | .kill signal => (s.kill signal).1
  | .microtask =>
      match s.ending with
      | some (code, signal) =>
          { s with ending := none, events := s.events ++ [.exit code signal, .close code signal] }
      | none => s
  | i =>
      -- Without its configuration there is no session.
      if !s.receivedConfig then s
      else match i with
        | .shift => { s with queued := s.queued.tail }
        | .emitted event => if s.finished then s else { s with stdout := s.stdout ++ [event] }
        | .abort => { s with aborted := true }
        | .succeeded => s.finish (some 0) none
        | .failed error =>
            let s :=
              if !s.finished && !s.aborted then
                { s with stdout := s.stdout ++ [connectionFailed error] }
              else s
            s.finish (some 1) none
        | _ => s

end Controller

end AfkClient

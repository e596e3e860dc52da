import AfkClient.Model.Client

/-! The persistence of an account's status. Every write waits for the promise of the one before
it, whatever came of that one. -/

namespace AfkClient.StatusPersistence

inductive Phase where
  | waiting
  | writing
  | written
  | failed
  deriving DecidableEq, Repr

def Phase.settled : Phase → Bool
  | .written | .failed => true
  | _ => false

/-- A link of the promise chain `queue`, with its call of `write`. -/
structure Link where
  status : ClientStatus
  phase : Phase := .waiting
  deriving DecidableEq, Repr

structure Queue where
  lastRequested : Option ClientStatus
  links : List Link := []
  deriving DecidableEq, Repr

/-- `createStatusPersistence` -/
def create (initial : ClientStatus) : Queue := { lastRequested := some initial }

namespace Queue

/-- The function that is returned. -/
def request (q : Queue) (status : ClientStatus) : Queue :=
  if q.lastRequested = some status then q
  else { q with lastRequested := some status, links := q.links ++ [{ status }] }

def setPhase (q : Queue) (index : ℕ) (phase : Phase) : Queue :=
  { q with links := q.links.modify index ({ · with phase }) }

/-- The promise in front of a link is fulfilled. -/
def due (q : Queue) (index : ℕ) : Bool :=
  index = 0 || (q.links[index - 1]?).any (·.phase.settled)

/-- A link calls `write`. -/
def begin (q : Queue) (index : ℕ) : Queue :=
  match q.links[index]? with
  | some ⟨_, .waiting⟩ => if q.due index then q.setPhase index .writing else q
  | _ => q

/-- The write of a link ends, and its handler runs. -/
def settle (q : Queue) (index : ℕ) (ok : Bool) : Queue :=
  match q.links[index]? with
  | some ⟨status, .writing⟩ =>
      if ok then q.setPhase index .written
      else
        { q.setPhase index .failed with
          lastRequested := if q.lastRequested = some status then none else q.lastRequested }
  | _ => q

end Queue

inductive Input where
  | request (status : ClientStatus)
  | begin (index : ℕ)
  | settle (index : ℕ) (ok : Bool)
  deriving DecidableEq, Repr

def Queue.step (q : Queue) : Input → Queue
  | .request status => q.request status
  | .begin index => q.begin index
  | .settle index ok => q.settle index ok

end AfkClient.StatusPersistence

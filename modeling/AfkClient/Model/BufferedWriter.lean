import AfkClient.Library.Run

/-! The writer that collects items and writes them in batches. What runs between two awaits is
one step; every batch is saved by a task of its own, numbered in the order of their start. -/

namespace AfkClient.BufferedWriter

variable {α : Type*}

/-- An item with its number; the promise of its `enqueue` is settled by number. -/
structure Entry (α : Type*) where
  id : ℕ
  item : α
  deriving DecidableEq, Repr

/-- Where a `save` waits. -/
inductive Phase (α : Type*) where
  /-- For the write of a batch, with entries left to be saved one by one. -/
  | writing (batch rest : List (Entry α))
  /-- For the next write; if nothing is left, `finally` follows. -/
  | next (rest : List (Entry α))
  deriving DecidableEq, Repr

structure Save (α : Type*) where
  number : ℕ
  phase : Phase α
  deriving DecidableEq, Repr

/-- A write that has ended. -/
structure Write (α : Type*) where
  batch : List (Entry α)
  ok : Bool
  deriving DecidableEq, Repr

/-- A call of `flush`. -/
structure Flush where
  /-- How many items were enqueued before the call. -/
  before : ℕ
  /-- The save whose promise it awaits, if it is not a resolved one. -/
  awaits : Option ℕ
  resolved : Bool
  deriving DecidableEq, Repr

structure State (α : Type*) where
  queue : List (Entry α) := []
  timer : Bool := false
  running : Option ℕ := none
  saves : List (Save α) := []
  /-- The saves that were started. -/
  started : ℕ := 0
  /-- The items that were enqueued. -/
  enqueued : List α := []
  flushes : List Flush := []
  /-- The calls of `resolve` and `reject`. -/
  settled : List (Entry α × Bool) := []
  writes : List (Write α) := []
  deriving DecidableEq, Repr

def schedule (s : State α) : State α :=
  if ! s.timer && s.running.isNone && ! s.queue.isEmpty then { s with timer := true } else s

/-- `drain()`, with the save whose promise it returns. -/
def drain (batchSize : ℕ) (s : State α) : State α × Option ℕ :=
  match s.running with
  | some number => (s, some number)
  | none =>
      let batch := s.queue.take batchSize
      if batch.isEmpty then (s, none)
      else
        ({ s with
            queue := s.queue.drop batchSize
            saves := s.saves ++ [⟨s.started, .writing batch []⟩]
            running := some s.started
            started := s.started + 1 }, some s.started)

def setPhase (number : ℕ) (phase : Phase α) (s : State α) : State α :=
  { s with saves := s.saves.map fun save =>
    if save.number = number then { save with phase } else save }

def settle (batch : List (Entry α)) (ok : Bool) (s : State α) : State α :=
  { s with settled := s.settled ++ batch.map (·, ok) }

/-- `await write(...)` returns or throws, and `save` goes on. -/
def written (number : ℕ) (batch rest : List (Entry α)) (ok : Bool) (s : State α) : State α :=
  let s := { s with writes := s.writes ++ [⟨batch, ok⟩] }
  if ok then setPhase number (.next rest) (settle batch true s)
  else match batch with
    | entry :: other :: more => setPhase number (.writing [entry] (other :: more ++ rest)) s
    | batch => setPhase number (.next rest) (settle batch false s)

/-- `finally`, after which the promise of the save is resolved. -/
def finish (number : ℕ) (s : State α) : State α :=
  schedule { s with
    saves := s.saves.filter (·.number ≠ number)
    running := none }

def enqueue (item : α) (s : State α) : State α :=
  schedule { s with
    queue := s.queue ++ [⟨s.enqueued.length, item⟩]
    enqueued := s.enqueued ++ [item] }

/-- The body of the loop of `flush`, up to its await. -/
def flushTurn (batchSize : ℕ) (s : State α) : State α × Option ℕ :=
  drain batchSize { s with timer := false }

def flush (batchSize : ℕ) (s : State α) : State α :=
  let before := s.enqueued.length
  let (s, awaits) := flushTurn batchSize s
  { s with flushes := s.flushes ++ [⟨before, awaits, false⟩] }

/-- A flush goes on after its await. -/
def resume (batchSize k : ℕ) (call : Flush) (s : State α) : State α :=
  if ! s.queue.isEmpty || s.running.isSome then
    let (s, awaits) := flushTurn batchSize s
    { s with flushes := s.flushes.set k { call with awaits } }
  else { s with timer := false, flushes := s.flushes.set k { call with resolved := true } }

/-- The promise is resolved: it is none of a save that goes on. -/
def State.isDone (s : State α) (promise : Option ℕ) : Bool :=
  s.saves.all fun save => some save.number ≠ promise

inductive Input (α : Type*) where
  | enqueue (item : α)
  | flush
  | timer
  /-- The write of a save ends. -/
  | outcome (number : ℕ) (ok : Bool)
  /-- The microtask of a save between two writes. -/
  | proceed (number : ℕ)
  /-- The microtask of a flush whose promise is resolved. -/
  | resume (k : ℕ)
  deriving DecidableEq, Repr

/-- Inputs that are not due do nothing. -/
def step (batchSize : ℕ) (s : State α) : Input α → State α
  | .enqueue item => enqueue item s
  | .flush => flush batchSize s
  | .timer => if s.timer then (drain batchSize { s with timer := false }).1 else s
  | .outcome number ok => match s.saves.find? (·.number = number) with
      | some ⟨_, .writing batch rest⟩ => written number batch rest ok s
      | _ => s
  | .proceed number => match s.saves.find? (·.number = number) with
      | some ⟨_, .next (entry :: rest)⟩ => setPhase number (.writing [entry] rest) s
      | some ⟨_, .next []⟩ => finish number s
      | _ => s
  | .resume k => match s.flushes[k]? with
      | some call => if ! call.resolved &&
          s.isDone call.awaits then resume batchSize k call s else s
      | none => s

/-- What the event loop has to do. -/
def Due (s : State α) : Input α → Prop
  | .enqueue _ | .flush => False
  | .timer => s.timer
  | .outcome number _ => ∃ batch rest, ⟨number, .writing batch rest⟩ ∈ s.saves
  | .proceed number => ∃ rest, ⟨number, .next rest⟩ ∈ s.saves
  | .resume k => ∃ call, s.flushes[k]? = some call ∧ call.resolved = false ∧ s.isDone call.awaits

end AfkClient.BufferedWriter

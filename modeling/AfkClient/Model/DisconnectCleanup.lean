import AfkClient.Library.Run
import Mathlib.Data.List.Count
import Mathlib.Data.Nat.Notation

/-! The release of a connection whose shutdown failed. Network threads, the game and the callers of
`disconnect` run at once; a thread goes from one access of shared state to the next. -/

namespace AfkClient.DisconnectCleanup

/-- Where `releaseFailedShutdown` is. -/
inductive Check where
  | shutdown
  | isCompletedExceptionally (future : ℕ)
  | isRunning
  /-- The channels before `next` were looked at; `known` of them were there when the stream began.
    -/
  | isOpen (next known : ℕ)
  | compareAndSet
  | release
  deriving DecidableEq, Repr

/-- What a thread still has to do. -/
inductive Task where
  /-- `track` adds the listener. -/
  | addListener (channel : ℕ)
  /-- `observe` attaches the callback. -/
  | whenComplete (future : ℕ)
  | releaseFailedShutdown (check : Check)
  deriving DecidableEq, Repr

/-- The call of `releaseFailedShutdown` that a listener makes. -/
def Task.check : Task := .releaseFailedShutdown .shutdown

structure Release where
  /-- The three conditions held. -/
  ready : Bool
  /-- The connection was still in the state manager, so the event is posted. -/
  posted : Bool
  deriving DecidableEq, Repr

structure Cleanup where
  running : Bool := true
  closed : List ℕ := []
  /-- Futures that are completed, and whether exceptionally. -/
  completed : List (ℕ × Bool) := []
  channels : List ℕ := []
  shutdown : Option ℕ := none
  released : Bool := false
  isDisconnected : Bool := false
  /-- The connection is in the state manager. -/
  connected : Bool := true
  listeners : List ℕ := []
  callbacks : List ℕ := []
  tasks : List Task := []
  /-- All channels tracked so far. -/
  tracked : List ℕ := []
  releases : List Release := []
  deriving DecidableEq, Repr

namespace Cleanup

def isOpen (s : Cleanup) (channel : ℕ) : Bool := channel ∉ s.closed

/-- `future.isCompletedExceptionally()`; a future completes once. -/
def isCompletedExceptionally (s : Cleanup) (future : ℕ) : Bool :=
  (s.completed.lookup future).getD false

def isDone (s : Cleanup) (future : ℕ) : Bool := (s.completed.lookup future).isSome

/-- The first shutdown has failed, the client is stopped, and all channels are closed. -/
def Ready (s : Cleanup) : Prop :=
  s.shutdown.any s.isCompletedExceptionally ∧ s.running = false ∧ ∀ c ∈ s.tracked, c ∈ s.closed

instance (s : Cleanup) : Decidable s.Ready :=
  inferInstanceAs (Decidable (_ ∧ _ ∧ ∀ c ∈ s.tracked, _))

/-- The end of `releaseFailedShutdown`. -/
def release (s : Cleanup) : Cleanup :=
  { s with
    isDisconnected := true
    connected := false
    channels := []
    releases := s.releases ++ [⟨s.Ready, s.connected⟩] }

/-- The next access of the task, and what is left of it. A stream may or may not see a channel that
was added after it began. -/
def advance (s : Cleanup) (sees : Bool) : Task → Cleanup × Option Task
  | .addListener channel =>
      ({ s with listeners := channel :: s.listeners },
        if s.isOpen channel then none else some .check)
  | .whenComplete future =>
      ({ s with callbacks := future :: s.callbacks }, if s.isDone future then some .check else none)
  | .releaseFailedShutdown .shutdown =>
      (s, s.shutdown.map fun future => .releaseFailedShutdown (.isCompletedExceptionally future))
  | .releaseFailedShutdown (.isCompletedExceptionally future) =>
      (s, if s.isCompletedExceptionally future then some (.releaseFailedShutdown .isRunning) else
        none)
  | .releaseFailedShutdown .isRunning =>
      (s, if s.running then none
        else some (.releaseFailedShutdown (.isOpen 0 s.channels.length)))
  | .releaseFailedShutdown (.isOpen next known) =>
      (s, match s.channels[next]? with
        | none => some (.releaseFailedShutdown .compareAndSet)
        | some channel =>
            if known ≤ next && ! sees then some (.releaseFailedShutdown .compareAndSet)
            else if s.isOpen channel then none
            else some (.releaseFailedShutdown (.isOpen (next + 1) known)))
  | .releaseFailedShutdown .compareAndSet =>
      ({ s with released := true },
        if s.released then none else some (.releaseFailedShutdown .release))
  | .releaseFailedShutdown .release => (s.release, none)

end Cleanup

inductive Input where
  | track (channel : ℕ)
  /-- `disconnect` returns the future. -/
  | disconnect (future : ℕ)
  /-- The channel closes; its listeners are triggered. -/
  | close (channel : ℕ)
  | complete (future : ℕ) (exceptionally : Bool)
  | stop
  /-- Other code removes the connection. -/
  | remove
  | run (task : ℕ) (sees : Bool)
  deriving DecidableEq, Repr

def Cleanup.step (s : Cleanup) : Input → Cleanup
  | .track channel =>
      { s with
        channels := s.channels ++ [channel]
        tracked := s.tracked ++ [channel]
        tasks := s.tasks ++ [.addListener channel] }
  | .disconnect future =>
      if s.shutdown.isSome then s
      else { s with shutdown := some future, tasks := s.tasks ++ [.whenComplete future] }
  | .close channel =>
      if channel ∈ s.closed then s
      else
        { s with
          closed := channel :: s.closed
          tasks := s.tasks ++ List.replicate (s.listeners.count channel) Task.check }
  | .complete future exceptionally =>
      if s.isDone future then s
      else
        { s with
          completed := (future, exceptionally) :: s.completed
          tasks := s.tasks ++ List.replicate (s.callbacks.count future) Task.check }
  | .stop => { s with running := false }
  | .remove => { s with connected := false }
  | .run task sees =>
      match s.tasks[task]? with
      | none => s
      | some t =>
          let (s', rest) := s.advance sees t
          { s' with tasks := s.tasks.eraseIdx task ++ rest.toList }

end AfkClient.DisconnectCleanup

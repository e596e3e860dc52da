import AfkClient.Model.Behaviors

/-! A bot as its session runs it: ticks and new settings wait for each other, while
everything else happens at any time, also while one of them waits for the game. -/

namespace AfkClient.Behaviors

/-- A task that waits for the game, with the variables as they were when the code in
front of the call began to run and when it made the call. -/
structure Waiting where
  call : GameCall
  next : Except Failure call.Reply → Code Unit
  since : Behaviors
  asked : Behaviors

/-- Runs code up to its next call. -/
def runCode (s : Behaviors) (t : Code Unit) : Behaviors × Option Waiting :=
  match t.advance s with
  | (s', .ended _) => (s', none)
  | (s', .calling c next) => (s', some ⟨c, next, s, s'⟩)

structure Scheduler where
  vars : Behaviors
  /-- The tick or the new settings in progress. -/
  round : Option Waiting := none
  /-- The entries into a world in progress. -/
  spawns : List Waiting := []
  /-- The call of the last step. -/
  made : Option Waiting := none

namespace Scheduler

def on (b : Scheduler) (f : Behaviors → Behaviors) : Scheduler := { b with vars := f b.vars }

/-- Goes on with the round. -/
def proceed (b : Scheduler) (t : Code Unit) : Scheduler :=
  let (vars, waiting) := runCode b.vars t
  { b with vars := vars, round := waiting, made := waiting }

/-- A new round begins only when the last one is over. -/
def inTurn (b : Scheduler) (t : Code Unit) : Scheduler :=
  if b.round.isSome then b else b.proceed t

def beside (b : Scheduler) (t : Code Unit) : Scheduler :=
  let (vars, waiting) := runCode b.vars t
  { b with vars := vars, spawns := waiting.toList ++ b.spawns, made := waiting }

/-- The round is task 0, the entries into a world are the others. -/
def answer (b : Scheduler) (task : ℕ) (answers : (c : GameCall) → Except Failure c.Reply) :
    Scheduler :=
  match task with
  | 0 =>
      match b.round with
      | some w => b.proceed (w.next (answers w.call))
      | none => b
  | k + 1 =>
      match b.spawns[k]? with
      | some w => { b with spawns := b.spawns.eraseIdx k }.beside (w.next (answers w.call))
      | none => b

def step (b : Scheduler) (i : Input) : Scheduler :=
  let b : Scheduler := { b with vars := { b.vars with outbox := [] }, made := none }
  match i with
  | .configure config => b.inTurn (configure config)
  | .tick => b.inTurn tick
  | .spawned => b.beside spawned
  | .joining => b.on joining
  | .transition => b.on transition
  | .pause afterMs resumeMs => b.on (·.pause afterMs resumeMs)
  | .enqueue type text => b.on (·.enqueue type text)
  | .checkSneak => b.on checkSneak
  | .chat sender message => b.on (·.onChat sender message)
  | .answer task answers => b.answer task answers
  | .clock now => b.on fun s => { s with now := now }

def init (config : BehaviorConfig) (game : GameGateway) (letterOrNumber : Char → Bool) :
    Scheduler where
  vars := Behaviors.init config game letterOrNumber

end Scheduler

end AfkClient.Behaviors

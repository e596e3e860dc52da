import AfkClient.Model.Scheduler
import AfkClient.Verification.Behaviors.Frames

/-! What a step of a scheduled bot can be: a method that runs to its end, or the next piece
of a task, up to its next call. -/

namespace AfkClient.Behaviors

open AfkClient.Task

/-- What an input does that calls a method without an await. -/
def Input.method : Input → Option (Behaviors → Behaviors)
  | .joining => some Behaviors.joining
  | .transition => some Behaviors.transition
  | .pause afterMs resumeMs => some (·.pause afterMs resumeMs)
  | .enqueue type text => some (·.enqueue type text)
  | .checkSneak => some Behaviors.checkSneak
  | .chat sender message => some (·.onChat sender message)
  | .clock now => some fun s => { s with now := now }
  | _ => none

/-! ### Code up to its next call -/

/-- The task keeps to the protocol, whatever the answer. -/
def Waiting.Follows {γ : Type} (P : Protocol Behaviors GameCall GameCall.Reply Failure γ)
    (Q : γ → Except Failure Unit → Behaviors → Prop) (g : γ) (w : Waiting) : Prop :=
  P.call g w.call w.asked ∧ ∀ a s', P.back g w.call w.asked a s' →
    (w.next a).Follows P Q (P.next g w.call w.asked a s') s'

theorem runCode_follows {γ : Type} {P : Protocol Behaviors GameCall GameCall.Reply Failure γ}
    {Q : γ → Except Failure Unit → Behaviors → Prop} {g : γ} {s : Behaviors} {t : Code Unit}
    (h : t.Follows P Q g s) :
    ((runCode s t).2 = none ∧ ∃ r, Q g r (runCode s t).1) ∨
      ∃ w, (runCode s t).2 = some w ∧ w.since = s ∧ w.asked = (runCode s t).1 ∧ w.Follows P Q g := by
  have hadvance := h.advance
  unfold runCode
  generalize t.advance s = r at hadvance
  obtain ⟨s', p⟩ := r
  cases p with
  | ended r => exact .inl ⟨rfl, r, hadvance⟩
  | calling c next => exact .inr ⟨_, rfl, rfl, rfl, hadvance⟩

theorem runCode_within {γ : Type} {V : Behaviors → γ} {C : GameCall → Prop} {t : Code Unit}
    (h : t.Within V C) (s : Behaviors) :
    V (runCode s t).1 = V s ∧
      ∀ w ∈ (runCode s t).2, C w.call ∧ ∀ a, (w.next a).Within V C := by
  have hadvance := h.advance s
  unfold runCode
  generalize t.advance s = r at hadvance
  obtain ⟨s', p⟩ := r
  cases p with
  | ended r => exact ⟨hadvance.1, by simp⟩
  | calling c next =>
      refine ⟨hadvance.1, fun w hw => ?_⟩
      obtain rfl : _ = w := by simpa using hw
      exact hadvance.2 c next rfl

/-- A game that does what it is asked, with no menu open. -/
def accepting : (c : GameCall) → Except Failure c.Reply
  | .inventory => .ok { menuId := "player" }
  | .openSpawner _ => .ok true
  | .held _ | .sneak | .chat _ | .click .. | .transferAll _ | .close _ | .suspendSell _
  | .recoveringHome _ | .rememberHome _ => .ok ()

namespace Scheduler

/-- The variables at the begin of a step. -/
def fresh (b : Scheduler) : Behaviors := { b.vars with outbox := [] }

/-- The code that an input lets run in the round. -/
inductive Begins (b : Scheduler) : Input → Code Unit → Prop where
  | tick (h : b.round = none) : Begins b .tick Behaviors.tick
  | configure (h : b.round = none) (config : BehaviorConfig) :
      Begins b (.configure config) (Behaviors.configure config)
  | answer {w : Waiting} (h : b.round = some w)
      (answers : (c : GameCall) → Except Failure c.Reply) :
      Begins b (.answer 0 answers) (w.next (answers w.call))

/-- The code that an input lets run beside the round, and what else waits there. -/
inductive Besides (b : Scheduler) : Input → Code Unit → List Waiting → Prop where
  | spawned : Besides b .spawned Behaviors.spawned b.spawns
  | answer {w : Waiting} {k : ℕ} (h : b.spawns[k]? = some w)
      (answers : (c : GameCall) → Except Failure c.Reply) :
      Besides b (.answer (k + 1) answers) (w.next (answers w.call)) (b.spawns.eraseIdx k)

/-- Everything a step can do. -/
inductive Moves (b : Scheduler) (i : Input) : Scheduler → Prop where
  | none : Moves b i ⟨b.fresh, b.round, b.spawns, none⟩
  | method {f : Behaviors → Behaviors} (h : i.method = some f) :
      Moves b i ⟨f b.fresh, b.round, b.spawns, none⟩
  | round {t : Code Unit} (h : b.Begins i t) :
      Moves b i ⟨(runCode b.fresh t).1, (runCode b.fresh t).2, b.spawns, (runCode b.fresh t).2⟩
  | beside {t : Code Unit} {spawns : List Waiting} (h : b.Besides i t spawns) :
      Moves b i ⟨(runCode b.fresh t).1, b.round, (runCode b.fresh t).2.toList ++ spawns,
        (runCode b.fresh t).2⟩

theorem step_moves (b : Scheduler) (i : Input) : b.Moves i (b.step i) := by
  cases i with
  | joining | transition | checkSneak => exact .method rfl
  | pause afterMs resumeMs => exact .method (f := fun s => s.pause afterMs resumeMs) rfl
  | enqueue type text => exact .method (f := fun s => s.enqueue type text) rfl
  | chat sender message => exact .method (f := fun s => s.onChat sender message) rfl
  | clock now => exact .method (f := fun s => { s with now := now }) rfl
  | configure config =>
      simp only [step, inTurn]
      split
      · exact .none
      · rename_i h
        exact .round (.configure (by simpa using h) config)
  | tick =>
      simp only [step, inTurn]
      split
      · exact .none
      · rename_i h
        exact .round (.tick (by simpa using h))
  | spawned => exact .beside .spawned
  | answer task answers =>
      simp only [step, answer]
      split
      · split
        · rename_i h
          exact .round (.answer h answers)
        · exact .none
      · split
        · rename_i h
          exact .beside (.answer h answers)
        · exact .none

end Scheduler

end AfkClient.Behaviors

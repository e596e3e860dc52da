import AfkClient.Verification.Behaviors.Sneak

/-! A scheduled bot watched at its sneak key: which teleports happen, which ticks come to the sneak
step, and which of them call. -/

namespace AfkClient.Behaviors

open AfkClient.Task

attribute [local irreducible] Re.test Re.capture

/-! ### Watching -/

/-- A tick up to the sneak step; whether it gets there. -/
def approach (now : ℤ) : Code Bool := do
  settleHomeGate
  settleSavedHome
  let s ← .read
  pure (s.inventoryBlockedUntil ≤ now)

structure Watched where
  bot : Scheduler
  /-- When the last tick began. -/
  began : ℤ := 0
  /-- Where that tick waits for the game in front of the sneak step. -/
  heading : Option ((c : GameCall) × (Except Failure c.Reply → Code Bool)) := none
  log : List SneakNote := []

/-- A message is taken for one of the server. -/
def ofServer (sender : Option String) : Bool :=
  !sender.any fun name => name ≠ "" && Text.toLowerCase name.toList ≠ "hugosmp".toList

namespace Watched

/-- The input brings the bot to another place. -/
def teleports (b : Scheduler) : Input → Bool
  | .transition | .spawned => true
  | .chat sender message => ofServer sender && teleportSuccess message
  | .answer 0 answers =>
      b.round.any fun w => w.isCommand && answersTeleport w.call && (answers w.call).isOk
  | _ => false

def sneakFails (b : Scheduler) : Input → Bool
  | .answer 0 answers => b.round.any fun w => w.call = .sneak && !(answers w.call).isOk
  | _ => false

/-- The tick goes on towards the sneak step. -/
def head (w : Watched) (s : Behaviors) (t : Code Bool) : Watched :=
  match (t.advance s).2 with
  | .calling c next => { w with heading := some ⟨c, next⟩ }
  | .ended (.ok true) =>
      { w with
        heading := none
        log := w.log ++ [.reached w.began s.now (w.bot.made.any (·.call = .sneak))] }
  | .ended _ => { w with heading := none }

def note (w : Watched) (i : Input) : List SneakNote :=
  (if teleports w.bot i then [.teleported w.bot.vars.now] else []) ++
    if sneakFails w.bot i then [.failed w.began] else []

def step (w : Watched) (i : Input) : Watched :=
  let v : Watched := { w with bot := w.bot.step i, log := w.log ++ w.note i }
  match i with
  | .tick =>
      if w.bot.round.isSome || !w.bot.vars.online then v
      else { v with began := w.bot.vars.now }.head w.bot.fresh (approach w.bot.vars.now)
  | .answer 0 answers =>
      match w.heading with
      | some ⟨c, next⟩ => v.head w.bot.fresh (next (answers c))
      | none => v
  | _ => v

def init (config : BehaviorConfig) (game : GameGateway) (letterOrNumber : Char → Bool) : Watched where
  bot := .init config game letterOrNumber

/-- The clock does not go back, and the key stays held. -/
def Allowed (w : Watched) : Input → Prop
  | .clock now => w.bot.vars.now ≤ now
  | .configure config => config.crouchEnabled = some true
  | _ => True

instance (w : Watched) : ∀ i, Decidable (w.Allowed i)
  | .clock now => inferInstanceAs (Decidable (w.bot.vars.now ≤ now))
  | .configure config => inferInstanceAs (Decidable (config.crouchEnabled = some true))
  | .spawned | .joining | .transition | .pause _ _ | .enqueue _ _ | .checkSneak | .chat _ _
  | .tick | .answer _ _ => .isTrue trivial

end Watched

/-! ### Code up to the next call -/

/-- What a tick does from the sneak step on, if it gets there. -/
def fromSneak (now : ℤ) (reached : Bool) : Code Unit :=
  .when reached (reassertSneak now >>= fun _ => afterSneak now)

theorem pure_bind_fromSneak (now : ℤ) (reached : Bool) :
    (pure reached : Code Bool) >>= fromSneak now = fromSneak now reached := by
  generalize fromSneak now = f
  rfl

theorem tickTasks_eq (now : ℤ) : tickTasks now = settleSavedHome >>= fun _ =>
    .read >>= fun s : Behaviors => fromSneak now (decide (s.inventoryBlockedUntil ≤ now)) := rfl

theorem tick_eq : tick = .read >>= fun s : Behaviors =>
    .when s.online (approach s.now >>= fromSneak s.now) := by
  have hsaved : ∀ now, tickTasks now =
      (settleSavedHome >>= fun _ => .read >>= fun s : Behaviors =>
        pure (decide (s.inventoryBlockedUntil ≤ now))) >>= fromSneak now := by
    intro now
    rw [tickTasks_eq, Task.bind_assoc]
    simp only [Task.bind_assoc, pure_bind_fromSneak]
  have happroach : ∀ now, settleHomeGate >>= (fun _ => tickTasks now) =
      approach now >>= fromSneak now := by
    intro now
    rw [approach, Task.bind_assoc, hsaved]
  unfold tick
  simp only [happroach]

theorem approach_typed (now : ℤ) : Typed (approach now) :=
  .bind settleHomeGate_typed fun _ => .bind settleSavedHome_typed fun _ =>
    .bind within_read fun _ => within_pure _

/-- What the answer to a call leaves of the sneak key, in a tick that began at `now`. -/
def Waiting.goal (now : ℤ) (w : Waiting) (a : Except Failure w.call.Reply) (s : Behaviors) : KeyView :=
  if w.call = .sneak then
    keyView { s with nextSneak := if a.isOk then now + 30 * 60_000 else now + 1000 }
  else afterCall (w.isCommand && answersTeleport w.call && a.isOk) s

def Waiting.Keyed (now : ℤ) (w : Waiting) : Prop :=
  ∀ a s, (w.next a).Follows keys Leaves ⟨s, w.goal now a s⟩ s

/-- Code that goes on behind the sneak step as `u` does. -/
theorem runCode_leaves {t u : Code Unit} {s s₁ : Behaviors} {goal : KeyView}
    (hsame : t.advance s = u.advance s₁) (hu : u.Follows keys Leaves ⟨s, goal⟩ s₁) :
    keyView (runCode s t).1 = goal ∧
      ∀ w ∈ (runCode s t).2, w.call ≠ .sneak ∧ ∀ now, w.Keyed now := by
  have hadvance := hu.advance
  unfold runCode
  rw [hsame]
  generalize u.advance s₁ = r at hadvance
  obtain ⟨s', p⟩ := r
  cases p with
  | ended r => exact ⟨hadvance, by simp⟩
  | calling c next =>
      obtain ⟨⟨hview, hcall⟩, hnext⟩ := hadvance
      refine ⟨hview, fun w hw => ?_⟩
      obtain rfl := Option.some.inj hw
      refine ⟨hcall, fun now a s'' => ?_⟩
      rw [Waiting.goal, if_neg hcall]
      exact hnext a s'' trivial

/-- The tick goes on behind its call of `sneak`. -/
def sneaked (now : ℤ) (a : Except Failure Unit) : Code Unit :=
  .update (fun s => { s with nextSneak := if a.isOk then now + 30 * 60_000 else now + 1000 }) >>=
    fun _ => afterSneak now

theorem sneak_advance {s : Behaviors} (hcrouch : s.cfg.crouchEnabled = some true) (now : ℤ) :
    (fromSneak now true).advance s =
      if (s.runSneakChecks now).nextSneak ≤ now then
        (s.runSneakChecks now, .calling .sneak (sneaked now))
      else (afterSneak now).advance (s.runSneakChecks now) := by
  have hcrouch : (s.runSneakChecks now).cfg.crouchEnabled = some true := by
    have hgate := gate_runSneakChecks s now
    simp only [gate, Gate.mk.injEq] at hgate
    rw [hgate.1, hcrouch]
  change ((Task.when (decide ((s.runSneakChecks now).cfg.crouchEnabled = some true) &&
    decide ((s.runSneakChecks now).nextSneak ≤ now)) _).bind fun _ => afterSneak now).advance
      (s.runSneakChecks now) = _
  rw [decide_eq_true hcrouch, Bool.true_and]
  by_cases hdue : (s.runSneakChecks now).nextSneak ≤ now
  · rw [if_pos hdue, decide_eq_true hdue]
    refine congrArg (Prod.mk _) (congrArg (Paused.calling _) (funext fun a => ?_))
    cases a <;> rfl
  · rw [if_neg hdue, decide_eq_false hdue]
    rfl

theorem keyView_runSneakChecks {s : Behaviors} (hcrouch : s.cfg.crouchEnabled = some true) (now : ℤ) :
    keyView (s.runSneakChecks now) =
      ⟨s.sneakChecks.dropWhile (· ≤ now),
        if (s.sneakChecks.dropWhile (· ≤ now)).length < s.sneakChecks.length then 0 else s.nextSneak,
        some true, s.now⟩ := by
  by_cases hshort : (s.sneakChecks.dropWhile (· ≤ now)).length < s.sneakChecks.length
  · simp only [runSneakChecks, checkSneak, keyView, if_pos hshort, hcrouch, BEq.rfl, if_true]
  · simp only [runSneakChecks, keyView, if_neg hshort, hcrouch]

theorem runSneakChecks_nextId (s : Behaviors) (now : ℤ) :
    (s.runSneakChecks now).nextId = s.nextId := by
  simp only [runSneakChecks, checkSneak]
  split_ifs <;> rfl

/-- Code that goes on as `u` does. -/
theorem runCode_keyless {t u : Code Unit} {s s₁ : Behaviors} (hsame : t.advance s = u.advance s₁)
    (hu : Keyless u) : keyView (runCode s t).1 = keyView s₁ ∧
      ∀ w ∈ (runCode s t).2, NotKey w.call ∧ ∀ a, Keyless (w.next a) := by
  have hadvance := hu.advance s₁
  unfold runCode
  rw [hsame]
  generalize u.advance s₁ = r at hadvance
  obtain ⟨s', p⟩ := r
  cases p with
  | ended r => exact ⟨hadvance.1, by simp⟩
  | calling c next =>
      refine ⟨hadvance.1, fun w hw => ?_⟩
      obtain rfl := Option.some.inj hw
      exact hadvance.2 c next rfl

theorem Waiting.keyed_of_keyless {w : Waiting} (hcall : NotKey w.call)
    (hnext : ∀ a, Keyless (w.next a)) (now : ℤ) : w.Keyed now := by
  intro a s
  refine Keyless.leaves (hnext a) ?_
  change keyView s = w.goal now a s
  rw [Waiting.goal, if_neg hcall.ne]
  exact (afterCall_other hcall w.since w.asked a.isOk s).symm

/-! ### Methods without an await -/

theorem keyView_transition (s : Behaviors) : keyView s.transition =
    ⟨scheduled s.now s.sneakChecks, 0, s.cfg.crouchEnabled, s.now⟩ := rfl

theorem keyView_enqueue (s : Behaviors) (type : CommandType) (text : Option String) :
    keyView (s.enqueue type text) = keyView s := by
  simp only [enqueue]
  split_ifs <;> rfl

theorem keyView_pause (s : Behaviors) (afterMs resumeMs : ℤ) :
    keyView (s.pause afterMs resumeMs) = keyView s := by
  rw [pause]
  split <;> rfl

theorem keyView_confirmHome (s : Behaviors) (message : String) :
    keyView (s.confirmHome message) = keyView s := by
  unfold confirmHome
  split
  · split <;> rfl
  · rfl

theorem keyView_onChat (s : Behaviors) (sender : Option String) (message : String) :
    keyView (s.onChat sender message) =
      if ofServer sender && teleportSuccess message then
        ⟨scheduled s.now s.sneakChecks, 0, s.cfg.crouchEnabled, s.now⟩
      else keyView s := by
  unfold onChat ofServer
  generalize teleportSuccess message = teleported
  generalize (payoutLine.test (plain message) && (parseSellEarning message).isSome) = paid
  generalize inventoryLocked.test (plain message) = locked
  cases hsender : sender.any fun name =>
      decide (name ≠ "") && decide (Text.toLowerCase name.toList ≠ "hugosmp".toList) with
  | true => rfl
  | false =>
      have hteleport : keyView (if teleported then { s.scheduleSneak with nextSneak := 0 } else s) =
          if teleported then ⟨scheduled s.now s.sneakChecks, 0, s.cfg.crouchEnabled, s.now⟩
          else keyView s := by
        cases teleported <;> rfl
      have hconfirm := (keyView_confirmHome _ message).trans hteleport
      rw [if_neg Bool.false_ne_true, Bool.not_false, Bool.true_and, ← hconfirm]
      dsimp only
      generalize confirmHome _ message = t
      cases paid <;> cases locked <;> rfl

/-! ### The timer of a bot -/

open SneakTimer (Step)

def KeyView.timer (k : KeyView) (tick calling : Option ℤ) (log : List SneakNote) : SneakTimer :=
  ⟨k.sneakChecks, k.nextSneak, k.now, tick, calling, log⟩

namespace Watched

def timer (w : Watched) : SneakTimer :=
  (keyView w.bot.vars).timer (if w.heading.isSome then some w.began else none)
    (if w.bot.round.any (·.call = .sneak) then some w.began else none) w.log

/-- Where the tick in progress waits. -/
def Rounds (w : Watched) : Prop :=
  match w.heading with
  | some ⟨c, next⟩ => NotKey c ∧ (∀ a, Typed (next a)) ∧ ∃ since asked,
      w.bot.round = some ⟨c, fun a => next a >>= fromSneak w.began, since, asked⟩
  | none => ∀ v ∈ w.bot.round, v.Keyed w.began

structure Sound (w : Watched) : Prop where
  crouch : w.bot.vars.cfg.crouchEnabled = some true
  spawns : ∀ v ∈ w.bot.spawns, ∀ a, Keyless (v.next a)
  rounds : w.Rounds

/-- A step that the timer explains. -/
structure Follows (t : SneakTimer) (w : Watched) : Prop where
  sound : w.Sound
  steps : Relation.ReflTransGen Step t w.timer

variable {w : Watched}

theorem crouch_of_view {s t : Behaviors} (h : keyView s = keyView t)
    (ht : t.cfg.crouchEnabled = some true) : s.cfg.crouchEnabled = some true :=
  (congrArg KeyView.crouchEnabled h).trans ht

theorem proceed_eq (b : Scheduler) (t : Code Unit) :
    b.proceed t = ⟨(runCode b.vars t).1, (runCode b.vars t).2, b.spawns, (runCode b.vars t).2⟩ := rfl

theorem any_sneak {v : Option Waiting} (h : ∀ w ∈ v, w.call ≠ .sneak) :
    v.any (·.call = .sneak) = false := by
  cases v with
  | none => rfl
  | some w => exact decide_eq_false (h w rfl)

theorem sneaked_keyed (now : ℤ) (since asked : Behaviors) :
    Waiting.Keyed now ⟨.sneak, sneaked now, since, asked⟩ := by
  intro a s
  refine follows_update_bind.mpr (afterSneak_leaves now ⟨?_, rfl⟩)
  rw [Waiting.goal, if_pos rfl]

/-- What a tick that comes to the sneak step finds is what the timer says. -/
theorem timer_reach {s t : Behaviors} (hview : keyView s = keyView t)
    (hcrouch : s.cfg.crouchEnabled = some true) (began : ℤ) (log : List SneakNote) :
    ((keyView t).timer (some began) none log).reach began =
      (keyView (s.runSneakChecks began)).timer none
        (if (s.runSneakChecks began).nextSneak ≤ began then some began else none)
        (log ++ [.reached began t.now (decide ((s.runSneakChecks began).nextSneak ≤ began))]) := by
  have hrun := keyView_runSneakChecks hcrouch began
  have hnext := congrArg KeyView.nextSneak hrun
  simp only [keyView, KeyView.mk.injEq] at hview
  obtain ⟨hchecks, hsneak, -, hnow⟩ := hview
  change (s.runSneakChecks began).nextSneak = _ at hnext
  rw [hrun, hnext, hchecks, hsneak, hnow]
  rfl

/-- The sneak step of a tick that began at `w.began`. -/
theorem reach_follows {b : Scheduler} {began : ℤ} {s : Behaviors} {t : Code Unit} {log : List SneakNote}
    (hcrouch : b.vars.cfg.crouchEnabled = some true) (hspawns : ∀ v ∈ b.spawns, ∀ a, Keyless (v.next a))
    (hview : typedView s = typedView b.vars)
    (ht : t.advance b.vars = (fromSneak began true).advance s) :
    Follows ((keyView b.vars).timer (some began) none log)
      ⟨b.proceed t, began, none,
        log ++ [.reached began b.vars.now ((b.proceed t).made.any (·.call = .sneak))]⟩ := by
  have hkeys : keyView s = keyView b.vars := congrArg Prod.fst hview
  have hs := crouch_of_view hkeys hcrouch
  have hcrouch' : (s.runSneakChecks began).cfg.crouchEnabled = some true :=
    congrArg KeyView.crouchEnabled (keyView_runSneakChecks hs began)
  have hstep : Relation.ReflTransGen Step ((keyView b.vars).timer (some began) none log) _ :=
    .single (.reach rfl)
  rw [timer_reach hkeys hs] at hstep
  rw [sneak_advance hs] at ht
  by_cases hdue : (s.runSneakChecks began).nextSneak ≤ began
  · rw [if_pos hdue] at ht
    have hrun : runCode b.vars t = (s.runSneakChecks began,
        some ⟨.sneak, sneaked began, b.vars, s.runSneakChecks began⟩) := by
      rw [runCode, ht]
    rw [proceed_eq, hrun]
    rw [if_pos hdue, decide_eq_true hdue] at hstep
    refine ⟨⟨hcrouch', hspawns, fun v hv => ?_⟩, hstep⟩
    obtain rfl := Option.some.inj hv
    exact sneaked_keyed began _ _
  · rw [if_neg hdue] at ht
    have hid : (s.runSneakChecks began).nextId = b.vars.nextId :=
      (runSneakChecks_nextId s began).trans (congrArg Prod.snd hview)
    obtain ⟨hgoal, hmade⟩ := runCode_leaves ht
      (@afterSneak_leaves ⟨b.vars, keyView (s.runSneakChecks began)⟩ _ began ⟨rfl, hid⟩)
    have hnone := any_sneak fun v hv => (hmade v hv).1
    rw [if_neg hdue, decide_eq_false hdue] at hstep
    rw [proceed_eq, hnone]
    refine ⟨⟨crouch_of_view hgoal hcrouch', hspawns, fun v hv => (hmade v hv).2 began⟩, ?_⟩
    have htimer : (⟨⟨(runCode b.vars t).1, (runCode b.vars t).2, b.spawns, (runCode b.vars t).2⟩, began,
        none, log ++ [.reached began b.vars.now false]⟩ : Watched).timer =
        (keyView (s.runSneakChecks began)).timer none none
          (log ++ [.reached began b.vars.now false]) := by
      rw [timer, hgoal, hnone]
      rfl
    rw [htimer]
    exact hstep

/-- A piece of the way to the sneak step. -/
theorem head_follows {b : Scheduler} (began : ℤ) {t : Code Bool} (log : List SneakNote)
    (heading : Option ((c : GameCall) × (Except Failure c.Reply → Code Bool)))
    (hcrouch : b.vars.cfg.crouchEnabled = some true) (hspawns : ∀ v ∈ b.spawns, ∀ a, Keyless (v.next a))
    (ht : Typed t) : Follows ((keyView b.vars).timer (some began) none log)
      ((⟨b.proceed (t >>= fromSneak began), began, heading, log⟩ : Watched).head b.vars t) := by
  obtain ⟨hview, hcalls⟩ := ht.advance b.vars
  have hbind := advance_bind t (fromSneak began) b.vars
  unfold head
  cases hres : t.advance b.vars with
  | mk s p =>
      rw [hres] at hview hcalls hbind
      have hkeys : keyView s = keyView b.vars := congrArg Prod.fst hview
      have hs := crouch_of_view hkeys hcrouch
      -- A tick that ends in front of the sneak step.
      have hleave : ∀ r, (t >>= fromSneak began).advance b.vars = (s, .ended r) →
          Follows ((keyView b.vars).timer (some began) none log)
            ⟨b.proceed (t >>= fromSneak began), began, none, log⟩ := by
        intro r hended
        have hrun : runCode b.vars (t >>= fromSneak began) = (s, none) := by rw [runCode, hended]
        rw [proceed_eq, hrun]
        refine ⟨⟨hs, hspawns, fun v hv => by simp at hv⟩, .single ?_⟩
        change Step _ ((keyView s).timer none none log)
        rw [hkeys]
        exact .leave
      cases p with
      | calling c next =>
          obtain ⟨hc, hnext⟩ := hcalls c next rfl
          have hrun : runCode b.vars (t >>= fromSneak began) =
              (s, some ⟨c, fun a => next a >>= fromSneak began, b.vars, s⟩) := by
            rw [runCode, hbind]
          rw [proceed_eq, hrun]
          refine ⟨⟨hs, hspawns, hc, hnext, b.vars, s, rfl⟩, ?_⟩
          have hcalling : decide (c = .sneak) = false := decide_eq_false hc.ne
          change Relation.ReflTransGen Step _ ((keyView s).timer (some began)
            (if decide (c = .sneak) then some began else none) log)
          rw [hcalling, hkeys]
          exact .refl
      | ended r =>
          cases r with
          | error e => exact hleave _ hbind
          | ok reached =>
              cases reached with
              | false => exact hleave _ hbind
              | true => exact reach_follows hcrouch hspawns hview hbind

/-! ### Steps -/

/-- A step of the variables alone, or of the entries into a world. -/
theorem beside_follows (h : w.Sound) {bot : Scheduler} {log : List SneakNote}
    (hround : bot.round = w.bot.round) (hcrouch : bot.vars.cfg.crouchEnabled = some true)
    (hspawns : ∀ v ∈ bot.spawns, ∀ a, Keyless (v.next a))
    (hsteps : Relation.ReflTransGen Step w.timer
      ((keyView bot.vars).timer w.timer.tick w.timer.calling log)) :
    Follows w.timer ⟨bot, w.began, w.heading, log⟩ := by
  refine ⟨⟨hcrouch, hspawns, ?_⟩, ?_⟩
  · have hrounds := h.rounds
    unfold Rounds at hrounds ⊢
    simp only [hround]
    exact hrounds
  · change Relation.ReflTransGen Step w.timer ((keyView bot.vars).timer w.timer.tick
      (if bot.round.any (·.call = .sneak) then some w.began else none) log)
    rw [hround]
    exact hsteps

theorem still_follows (h : w.Sound) {bot : Scheduler} (hround : bot.round = w.bot.round)
    (hview : keyView bot.vars = keyView w.bot.vars)
    (hspawns : ∀ v ∈ bot.spawns, ∀ a, Keyless (v.next a)) :
    Follows w.timer ⟨bot, w.began, w.heading, w.log⟩ := by
  refine beside_follows h hround (crouch_of_view hview h.crouch) hspawns ?_
  rw [hview]
  exact .refl

/-- A teleport that also asks for a call at once. -/
theorem teleport_follows (h : w.Sound) {bot : Scheduler} (hround : bot.round = w.bot.round)
    (hview : keyView bot.vars = ⟨scheduled w.bot.vars.now w.bot.vars.sneakChecks, 0, some true,
      w.bot.vars.now⟩) (hspawns : ∀ v ∈ bot.spawns, ∀ a, Keyless (v.next a)) :
    Follows w.timer ⟨bot, w.began, w.heading, w.log ++ [.teleported w.bot.vars.now]⟩ := by
  refine beside_follows h hround (congrArg KeyView.crouchEnabled hview) hspawns ?_
  rw [hview]
  exact .single (.teleport (.inl rfl))

theorem note_nil {i : Input} (hteleports : teleports w.bot i = false) (hfails : sneakFails w.bot i = false) :
    w.log ++ w.note i = w.log := by
  rw [note, hteleports, hfails]
  exact List.append_nil _

theorem note_teleported {i : Input} (hteleports : teleports w.bot i = true)
    (hfails : sneakFails w.bot i = false) :
    w.log ++ w.note i = w.log ++ [.teleported w.bot.vars.now] := by
  rw [note, hteleports, hfails]
  rfl

theorem spawned_follows (h : w.Sound) : Follows w.timer (w.step .spawned) := by
  have hrest : ∀ config, Keyless (await (.held config) >>= fun _ => requestReturn) := fun config =>
    .bind (within_perform.mpr trivial) fun _ => requestReturn_keyless
  have hsame : Behaviors.spawned.advance w.bot.fresh =
      (await (.held w.bot.fresh.cfg) >>= fun _ => requestReturn).advance
        (Behaviors.transition { w.bot.fresh with online := true }) := rfl
  obtain ⟨hview, hmade⟩ := runCode_keyless hsame (hrest _)
  have hlog : w.log ++ w.note .spawned = w.log ++ [.teleported w.bot.vars.now] :=
    note_teleported rfl rfl
  change Follows w.timer ⟨w.bot.step .spawned, w.began, w.heading, w.log ++ w.note .spawned⟩
  rw [hlog]
  refine teleport_follows h rfl ?_ fun v hv => ?_
  · exact hview.trans (congrArg (fun crouch => KeyView.mk _ 0 crouch _) h.crouch)
  · rcases List.mem_append.mp hv with hv | hv
    · exact (hmade v (Option.mem_toList.mp hv)).2
    · exact h.spawns v hv

theorem configure_follows (h : w.Sound) {config : BehaviorConfig}
    (hconfig : config.crouchEnabled = some true) : Follows w.timer (w.step (.configure config)) := by
  have hlog : w.log ++ w.note (.configure config) = w.log := note_nil rfl rfl
  change Follows w.timer ⟨w.bot.step (.configure config), w.began, w.heading,
    w.log ++ w.note (.configure config)⟩
  rw [hlog]
  change Follows w.timer ⟨Scheduler.inTurn ⟨w.bot.fresh, w.bot.round, w.bot.spawns, none⟩
    (Behaviors.configure config), w.began, w.heading, w.log⟩
  rw [Scheduler.inTurn]
  split
  · exact still_follows h rfl rfl h.spawns
  · rename_i hidle
    have hnone : w.bot.round = none := by simpa using hidle
    have hheading : w.heading = none := by
      have hrounds := h.rounds
      unfold Rounds at hrounds
      split at hrounds
      · obtain ⟨-, -, since, asked, hsome⟩ := hrounds
        rw [hnone] at hsome
        cases hsome
      · assumption
    have hrest : ∀ cfg, Keyless (await (.held config) >>= fun _ =>
        applySell config (sellChanged cfg config)) := fun cfg =>
      .bind (within_perform.mpr trivial) fun _ => (applySell_inMenus _ _).keyless
    have hsame : (Behaviors.configure config).advance w.bot.fresh =
        (await (.held config) >>= fun _ =>
          applySell config (sellChanged w.bot.fresh.cfg config)).advance
            (w.bot.fresh.applyConfig config) := rfl
    obtain ⟨hview, hmade⟩ := runCode_keyless hsame (hrest _)
    have hview : keyView (runCode w.bot.fresh (Behaviors.configure config)).1 = keyView w.bot.vars := by
      have hcrouch : w.bot.fresh.cfg.crouchEnabled = some true := h.crouch
      have happlied : keyView (w.bot.fresh.applyConfig config) = keyView w.bot.fresh := by
        simp only [applyConfig, keyView]
        split <;> rw [hcrouch, hconfig]
      exact hview.trans happlied
    have hcalling := any_sneak fun v hv => (hmade v hv).1.ne
    rw [proceed_eq]
    refine ⟨⟨crouch_of_view hview h.crouch, h.spawns, ?_⟩, ?_⟩
    · simp only [Rounds, hheading]
      exact fun v hv => Waiting.keyed_of_keyless (hmade v hv).1 (hmade v hv).2 _
    · have htimer : (⟨⟨(runCode w.bot.fresh (Behaviors.configure config)).1,
          (runCode w.bot.fresh (Behaviors.configure config)).2, w.bot.spawns,
          (runCode w.bot.fresh (Behaviors.configure config)).2⟩, w.began, w.heading, w.log⟩ :
            Watched).timer = w.timer := by
        simp only [timer, hcalling, hview, hheading, hnone]
        rfl
      rw [htimer]

theorem tick_follows (h : w.Sound) : Follows w.timer (w.step .tick) := by
  have hlog : w.log ++ w.note .tick = w.log := note_nil rfl rfl
  have hbot : w.bot.step .tick = Scheduler.inTurn ⟨w.bot.fresh, w.bot.round, w.bot.spawns, none⟩
    Behaviors.tick := rfl
  rw [step]
  simp only [hlog, hbot, Scheduler.inTurn]
  cases hround : w.bot.round with
  | some v =>
      simp only [Option.isSome_some, Bool.true_or, if_true]
      exact still_follows h hround.symm rfl h.spawns
  | none =>
      cases honline : w.bot.vars.online with
      | false =>
          have hended : Behaviors.tick.advance w.bot.fresh = (w.bot.fresh, .ended (.ok ())) := by
            change (Task.when w.bot.vars.online _).advance w.bot.fresh = _
            rw [honline]
            rfl
          have hrun : runCode w.bot.fresh Behaviors.tick = (w.bot.fresh, none) := by
            rw [runCode, hended]
          simp only [Option.isSome_none, Bool.not_false, Bool.or_true, if_true, proceed_eq, hrun]
          exact still_follows h hround.symm rfl h.spawns
      | true =>
          have hheads : Behaviors.tick.advance w.bot.fresh =
              (approach w.bot.vars.now >>= fromSneak w.bot.vars.now).advance w.bot.fresh := by
            rw [tick_eq]
            change (Task.when w.bot.vars.online _).advance w.bot.fresh = _
            rw [honline]
            rfl
          have hrun : runCode w.bot.fresh Behaviors.tick =
              runCode w.bot.fresh (approach w.bot.vars.now >>= fromSneak w.bot.vars.now) := by
            rw [runCode, hheads, runCode]
          simp only [Option.isSome_none, Bool.not_true, Bool.or_false, Bool.false_eq_true, if_false,
            proceed_eq, hrun]
          have hfollows := head_follows (b := ⟨w.bot.fresh, none, w.bot.spawns, none⟩) w.bot.vars.now
            w.log w.heading h.crouch h.spawns (approach_typed w.bot.vars.now)
          refine ⟨hfollows.sound, .head ?_ hfollows.steps⟩
          have hcalling : w.timer.calling = none := by
            simp only [timer, KeyView.timer, hround]
            rfl
          have hstart := Step.start hcalling
          rw [hcalling] at hstart
          exact hstart

theorem answer_note {v : Waiting} (hround : w.bot.round = some v)
    (answers : (c : GameCall) → Except Failure c.Reply) :
    w.note (.answer 0 answers) =
      (if v.isCommand && answersTeleport v.call && (answers v.call).isOk then
        [.teleported w.bot.vars.now] else []) ++
      if v.call = .sneak ∧ (answers v.call).isOk = false then [.failed w.began] else [] := by
  rw [note, teleports, sneakFails, hround]
  simp only [Option.any_some, Bool.and_eq_true, decide_eq_true_eq, Bool.not_eq_true']

/-- The answer to a call of the code behind the sneak step, or in it. -/
theorem keyed_follows (h : w.Sound) (hheading : w.heading = none) {v : Waiting}
    (hround : w.bot.round = some v) (answers : (c : GameCall) → Except Failure c.Reply) :
    Follows w.timer ⟨Scheduler.proceed ⟨w.bot.fresh, w.bot.round, w.bot.spawns, none⟩
      (v.next (answers v.call)), w.began, none, w.log ++ w.note (.answer 0 answers)⟩ := by
  have hkeyed : v.Keyed w.began := by
    have hrounds := h.rounds
    simp only [Rounds, hheading] at hrounds
    exact hrounds v hround
  obtain ⟨hgoal, hmade⟩ := runCode_leaves rfl (hkeyed (answers v.call) w.bot.fresh)
  have hcalling := any_sneak fun u hu => (hmade u hu).1
  have hcrouch : w.bot.fresh.cfg.crouchEnabled = some true := h.crouch
  have htimer : w.timer = (keyView w.bot.fresh).timer none
      (if v.call = .sneak then some w.began else none) w.log := by
    simp only [timer, hheading, hround, Option.any_some, decide_eq_true_eq]
    rfl
  rw [proceed_eq]
  refine ⟨⟨?_, h.spawns, fun u hu => (hmade u hu).2 _⟩, ?_⟩
  · refine (congrArg KeyView.crouchEnabled hgoal).trans ?_
    unfold Waiting.goal afterCall
    split
    · exact hcrouch
    · split <;> exact hcrouch
  · rw [htimer]
    change Relation.ReflTransGen Step _
      ((keyView (runCode w.bot.fresh (v.next (answers v.call))).1).timer none
        (if (runCode w.bot.fresh (v.next (answers v.call))).2.any (·.call = .sneak) then some w.began
          else none) (w.log ++ w.note (.answer 0 answers)))
    rw [hcalling, hgoal, Waiting.goal, answer_note hround]
    by_cases hsneak : v.call = .sneak
    · have hteleport : (v.isCommand && answersTeleport v.call && (answers v.call).isOk) = false := by
        rw [hsneak]
        cases v.isCommand <;> rfl
      rw [if_pos hsneak, if_pos hsneak, hteleport]
      cases hok : (answers v.call).isOk with
      | true =>
          have hfails : ¬(v.call = .sneak ∧ true = false) := fun h => Bool.noConfusion h.2
          rw [if_neg hfails]
          rw [show w.log ++ ((if false = true then [.teleported w.bot.vars.now] else []) ++ []) = w.log
            from List.append_nil _]
          exact .single (.accepted rfl)
      | false =>
          have hfails : v.call = .sneak ∧ false = false := ⟨hsneak, rfl⟩
          rw [if_pos hfails]
          exact .single (.failed rfl)
    · have hfails : ¬(v.call = .sneak ∧ (answers v.call).isOk = false) := fun h => hsneak h.1
      rw [if_neg hsneak, if_neg hsneak, if_neg hfails]
      cases v.isCommand && answersTeleport v.call && (answers v.call).isOk with
      | true => exact .single (.teleport (.inr ⟨rfl, rfl⟩))
      | false =>
          rw [show w.log ++ ((if false = true then [.teleported w.bot.vars.now] else []) ++ []) = w.log
            from List.append_nil _]
          exact .refl

theorem answer_follows (h : w.Sound) (answers : (c : GameCall) → Except Failure c.Reply) :
    Follows w.timer (w.step (.answer 0 answers)) := by
  have hbot : w.bot.step (.answer 0 answers) =
    Scheduler.answer ⟨w.bot.fresh, w.bot.round, w.bot.spawns, none⟩ 0 answers := rfl
  rw [step]
  simp only [hbot, Scheduler.answer]
  cases hheading : w.heading with
  | none =>
      cases hround : w.bot.round with
      | none =>
          have hlog : w.log ++ w.note (.answer 0 answers) = w.log := by
            refine note_nil ?_ ?_
            · rw [teleports, hround]
              rfl
            · rw [sneakFails, hround]
              rfl
          have hstill : Follows w.timer
              ⟨⟨w.bot.fresh, none, w.bot.spawns, none⟩, w.began, w.heading, w.log⟩ :=
            still_follows h hround.symm rfl h.spawns
          rw [hheading] at hstill
          rw [hlog]
          exact hstill
      | some v =>
          simp only
          have hkeyed := keyed_follows h hheading hround answers
          rw [hround] at hkeyed
          exact hkeyed
  | some heading =>
      obtain ⟨c, next⟩ := heading
      have hrounds := h.rounds
      simp only [Rounds, hheading] at hrounds
      obtain ⟨hc, hnext, since, asked, hround⟩ := hrounds
      have hother : answersTeleport c = false := by
        cases c <;> first | rfl | exact hc.elim
      have hlog : w.log ++ w.note (.answer 0 answers) = w.log := by
        refine note_nil ?_ ?_
        · simp only [teleports, hround, Option.any_some, hother, Bool.and_false, Bool.false_and]
        · simp only [sneakFails, hround, Option.any_some, decide_eq_false hc.ne, Bool.false_and]
      have hfollows := head_follows (b := ⟨w.bot.fresh, w.bot.round, w.bot.spawns, none⟩) w.began
        w.log (some ⟨c, next⟩) h.crouch h.spawns (hnext (answers c))
      have htimer : w.timer = (keyView w.bot.fresh).timer (some w.began) none w.log := by
        simp only [timer, hheading, hround, Option.any_some, decide_eq_false hc.ne]
        rfl
      rw [htimer, hlog]
      simp only [hround] at hfollows ⊢
      exact hfollows

theorem beside_answer_follows (h : w.Sound) (k : ℕ) (answers : (c : GameCall) → Except Failure c.Reply) :
    Follows w.timer (w.step (.answer (k + 1) answers)) := by
  have hlog : w.log ++ w.note (.answer (k + 1) answers) = w.log := note_nil rfl rfl
  change Follows w.timer ⟨Scheduler.answer ⟨w.bot.fresh, w.bot.round, w.bot.spawns, none⟩ (k + 1)
    answers, w.began, w.heading, w.log ++ w.note (.answer (k + 1) answers)⟩
  rw [hlog, Scheduler.answer]
  simp only
  split
  · rename_i v hv
    obtain ⟨hview, hmade⟩ := runCode_keyless (s := w.bot.fresh) rfl
      (h.spawns v (List.mem_of_getElem? hv) (answers v.call))
    refine still_follows h rfl hview fun u hu => ?_
    rcases List.mem_append.mp hu with hu | hu
    · exact (hmade u (Option.mem_toList.mp hu)).2
    · exact h.spawns u (List.mem_of_mem_eraseIdx hu)
  · exact still_follows h rfl rfl h.spawns

/-- What an input without an await does. -/
theorem method_follows (h : w.Sound) {i : Input} (hi : w.Allowed i) {f : Behaviors → Behaviors}
    (hf : i.method = some f) : Follows w.timer ⟨⟨f w.bot.fresh, w.bot.round, w.bot.spawns, none⟩,
      w.began, w.heading, w.log ++ w.note i⟩ := by
  cases i with
  | joining =>
      obtain rfl : Behaviors.joining = f := Option.some.inj hf
      rw [note_nil rfl rfl]
      exact still_follows h rfl rfl h.spawns
  | transition =>
      obtain rfl : Behaviors.transition = f := Option.some.inj hf
      rw [note_teleported rfl rfl]
      refine teleport_follows h rfl ?_ h.spawns
      rw [keyView_transition]
      exact congrArg (fun crouch => KeyView.mk _ 0 crouch _) h.crouch
  | pause afterMs resumeMs =>
      obtain rfl : (fun s => s.pause afterMs resumeMs) = f := Option.some.inj hf
      rw [note_nil rfl rfl]
      exact still_follows h rfl (keyView_pause _ afterMs resumeMs) h.spawns
  | enqueue type text =>
      obtain rfl : (fun s => s.enqueue type text) = f := Option.some.inj hf
      rw [note_nil rfl rfl]
      exact still_follows h rfl (keyView_enqueue _ type text) h.spawns
  | checkSneak =>
      obtain rfl : Behaviors.checkSneak = f := Option.some.inj hf
      have hview : keyView w.bot.fresh.checkSneak =
          ⟨w.bot.vars.sneakChecks, 0, some true, w.bot.vars.now⟩ := by
        have hcrouch : w.bot.fresh.cfg.crouchEnabled = some true := h.crouch
        simp only [Behaviors.checkSneak, keyView, hcrouch, BEq.rfl, if_true]
        rfl
      rw [note_nil rfl rfl]
      refine beside_follows h rfl (congrArg KeyView.crouchEnabled hview) h.spawns ?_
      rw [hview]
      exact .single .check
  | chat sender message =>
      obtain rfl : (fun s => s.onChat sender message) = f := Option.some.inj hf
      have hview := keyView_onChat w.bot.fresh sender message
      cases hteleport : ofServer sender && teleportSuccess message with
      | true =>
          rw [hteleport, if_pos rfl] at hview
          have hlog : w.log ++ w.note (.chat sender message) = w.log ++ [.teleported w.bot.vars.now] :=
            note_teleported hteleport rfl
          rw [hlog]
          refine teleport_follows h rfl (hview.trans ?_) h.spawns
          exact congrArg (fun crouch => KeyView.mk _ 0 crouch _) h.crouch
      | false =>
          rw [hteleport] at hview
          have hlog : w.log ++ w.note (.chat sender message) = w.log := note_nil hteleport rfl
          rw [hlog]
          exact still_follows h rfl hview h.spawns
  | clock now =>
      obtain rfl : (fun s : Behaviors => { s with now := now }) = f := Option.some.inj hf
      rw [note_nil rfl rfl]
      exact beside_follows h rfl h.crouch h.spawns (.single (.wait hi))
  | _ => cases hf

/-- Every step of the bot is one that the timer explains. -/
theorem step_follows (h : w.Sound) {i : Input} (hi : w.Allowed i) : Follows w.timer (w.step i) := by
  cases i with
  | tick => exact tick_follows h
  | spawned => exact spawned_follows h
  | configure config => exact configure_follows h hi
  | answer task answers =>
      cases task with
      | zero => exact answer_follows h answers
      | succ k => exact beside_answer_follows h k answers
  | joining => exact method_follows h hi (i := .joining) rfl
  | transition => exact method_follows h hi (i := .transition) rfl
  | pause afterMs resumeMs => exact method_follows h hi (i := .pause afterMs resumeMs) rfl
  | enqueue type text => exact method_follows h hi (i := .enqueue type text) rfl
  | checkSneak => exact method_follows h hi (i := .checkSneak) rfl
  | chat sender message => exact method_follows h hi (i := .chat sender message) rfl
  | clock now => exact method_follows h hi (i := .clock now) rfl

theorem init_sound {config : BehaviorConfig} (hcrouch : config.crouchEnabled = some true)
    (game : GameGateway) (letterOrNumber : Char → Bool) : (init config game letterOrNumber).Sound where
  crouch := hcrouch
  spawns := fun v hv => absurd hv List.not_mem_nil
  rounds := fun v hv => by simp [init, Scheduler.init] at hv

theorem init_kept (config : BehaviorConfig) (game : GameGateway) (letterOrNumber : Char → Bool) :
    (init config game letterOrNumber).timer.Kept where
  now := Int.le_refl 0
  orderly := ⟨.nil, fun _ hcheck => absurd hcheck List.not_mem_nil, Nat.zero_le _⟩
  tick := nofun
  calling := nofun
  covers := fun _ ⟨before, _, _, heq, _⟩ => by cases before <;> cases heq
  retries := fun _ ⟨before, _, _, heq, _⟩ => by cases before <;> cases heq
  answered := fun _ before _ _ _ _ _ _ heq => by cases before <;> cases heq
  repeated := fun _ before _ _ _ _ _ _ heq => by cases before <;> cases heq

end Watched

open SneakTimer (Answered Calls)

/-- With the key held, every teleport at `time` has a call of the game at `time + 2950` or later, no
later than by the first tick that begins three seconds after it and comes to the sneak step, and
every call that has failed another one no later than by the first such tick a second later. -/
theorem sneak_reasserted (config : BehaviorConfig) (game : GameGateway) (letterOrNumber : Char → Bool)
    (hcrouch : config.crouchEnabled = some true) (inputs : List Input)
    (hallowed : Meets Watched.step Watched.Allowed (.init config game letterOrNumber) inputs) :
    let log := (run Watched.step (.init config game letterOrNumber) inputs).log
    (∀ time, Answered (· = .teleported time) (Calls (time + 2950)) (time + 3000) log) ∧
      ∀ tick, Answered (· = .failed tick) (Calls tick) (tick + 1000) log := by
  have hstep : ∀ (w : Watched) i, w.Sound ∧ w.timer.Kept → w.Allowed i →
      (w.step i).Sound ∧ (w.step i).timer.Kept := by
    intro w i ⟨hsound, hkept⟩ hi
    have hfollows := Watched.step_follows hsound hi
    exact ⟨hfollows.sound, hkept.steps hfollows.steps⟩
  have hkept := (along_of_preserved hstep ⟨Watched.init_sound hcrouch game letterOrNumber,
    Watched.init_kept config game letterOrNumber⟩ hallowed).last
  exact ⟨hkept.2.answered, hkept.2.repeated⟩

/-- A game in which the sneak key fails. -/
def refusing : (c : GameCall) → Except Failure c.Reply
  | .sneak => .error { message := "deadline_exceeded" }
  | c => accepting c

/-- A tick that waits for the game to remember a home. -/
def lateTick : List Input :=
  [.spawned, .answer 1 accepting, .clock 100, .tick, .answer 0 accepting,
    .enqueue .chat (some "/spawn"), .clock 200, .tick, .answer 0 accepting, .answer 0 accepting,
    .clock 2900, .tick, .clock 3100, .answer 0 accepting]

/-- A call that fails, and one that does not half a second later. -/
def earlyRetry : List Input :=
  [.spawned, .answer 1 accepting, .clock 2500, .tick, .answer 0 refusing, .clock 3000, .tick,
    .answer 0 accepting, .clock 3500, .tick]

/-- The next tick makes good for the late one. -/
theorem sneak_reasserted_late :
    (∀ time, Answered (· = .teleported time) (Calls (time + 2950)) (time + 3000)
      (run Watched.step (.init { crouchEnabled := some true } { rememberHome := true } Char.isAlphanum)
        (lateTick ++ [.tick])).log) ∧
    ∀ tick, Answered (· = .failed tick) (Calls tick) (tick + 1000)
      (run Watched.step (.init { crouchEnabled := some true } { rememberHome := true } Char.isAlphanum)
        (lateTick ++ [.tick])).log :=
  sneak_reasserted _ _ _ rfl _ (by decide +kernel)

/-- A tick that waits from before to after the three seconds does not call; and a tick a second
after a failed call does not where another one has called meanwhile. -/
theorem sneak_late :
    (¬ ∀ (config : BehaviorConfig) (game : GameGateway) (letterOrNumber : Char → Bool),
      config.crouchEnabled = some true → ∀ inputs,
      Meets Watched.step Watched.Allowed (.init config game letterOrNumber) inputs →
      ∀ before teleported middle tick time called after,
        (run Watched.step (.init config game letterOrNumber) inputs).log =
          before ++ .teleported teleported :: (middle ++ .reached tick time called :: after) →
        teleported + 3000 ≤ time → ∃ tick' time',
          .reached tick' time' true ∈ middle ++ [.reached tick time called] ∧ teleported + 2950 ≤ time') ∧
    ¬ ∀ (config : BehaviorConfig) (game : GameGateway) (letterOrNumber : Char → Bool),
      config.crouchEnabled = some true → ∀ inputs,
      Meets Watched.step Watched.Allowed (.init config game letterOrNumber) inputs →
      ∀ before failed middle tick time called after,
        (run Watched.step (.init config game letterOrNumber) inputs).log =
          before ++ .failed failed :: (middle ++ .reached tick time called :: after) →
        (∀ tick' time' called', .reached tick' time' called' ∈ middle → time' < failed + 1000) →
        failed + 1000 ≤ tick → called = true := by
  constructor
  · intro h
    obtain ⟨tick, time, hmem, hearly⟩ := h { crouchEnabled := some true } { rememberHome := true }
      Char.isAlphanum rfl lateTick (by decide +kernel) [] 0
      [.reached 100 100 true, .reached 200 200 false] 2900 3100 false [] (by decide +kernel) (by decide)
    simp at hmem
    omega
  · intro h
    have hcalled := h { crouchEnabled := some true } { rememberHome := true } Char.isAlphanum rfl
      earlyRetry (by decide +kernel) [.teleported 0, .reached 2500 2500 true] 2500
      [.reached 3000 3000 true] 3500 3500 false [] (by decide +kernel) (by simp) (by decide)
    cases hcalled

end AfkClient.Behaviors

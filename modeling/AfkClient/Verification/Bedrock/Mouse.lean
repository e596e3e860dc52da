import AfkClient.Model.MouseButton
import AfkClient.Verification.Bedrock.Sneak

/-! Block actions and uses of the held mouse button, between two resets or teleports. -/

namespace AfkClient.MouseButton

open BedrockSender (Position Sender InputFrame Packet)

variable {η : Type}

/-! ### Breaking -/

/-- The block that a server is breaking, after an action that makes sense there. -/
def breakStep : Option Block → BlockAction → Option (Option Block)
  | none, ⟨.startBreak, position, _⟩ => some (some position)
  | some block, ⟨.continueBreak, position, _⟩ => if position = block then some (some block) else none
  | some block, ⟨.predictBreak, position, _⟩ => if position = block then some (some block) else none
  | some block, ⟨.abortBreak, position, _⟩ => if position = block then some none else none
  | _, _ => none

/-- Nothing but a single block is broken at any time. -/
def breaking (block : Option Block) (actions : List BlockAction) : Option (Option Block) :=
  actions.foldlM breakStep block

theorem breaking_append (block : Option Block) (actions more : List BlockAction) :
    breaking block (actions ++ more) = (breaking block actions).bind (breaking · more) :=
  List.foldlM_append

/-- The block actions of the packets that were sent. -/
def blockActions (log : List (Entry η)) : List BlockAction :=
  log.flatMap fun entry =>
    match entry with
    | .input packet => packet.blockAction
    | _ => []

def Button.block (b : Button η) : Option Block := b.mining.map (·.position)

/-- A tick lets go of the block: it is not in reach, and nothing keeps the tick from acting. -/
def Button.letsGo (look : Look η) (view : Option Position) (b : Button η) : Bool :=
  (b.releasePending.isNone || look.released) && view.isSome && look.hand.isSome &&
    !look.mouseBlocked && b.registry && b.mode == .left &&
    look.target.any fun target =>
      (Button.entityInFront target look.entities).isNone &&
        b.mining.any (Button.leaves · target)

/-- A tick whose abort is not sent. -/
def State.losesAbort (s : State η) : Event η → Bool
  | .tickInput look accepted =>
      s.sender.runtimeEntityId.isSome && !accepted && s.button.letsGo look s.sender.position
  | _ => false

/-- No step of the run loses an abort. -/
def Careful : State η → List (Event η) → Prop
  | _, [] => True
  | s, event :: events => s.losesAbort event = false ∧ Careful (s.step event) events

/-! ### Ticks -/

/-- The button without a pending release. -/
def Button.unpend (b : Button η) : Button η := { b with releasePending := none }

def Button.releaseLog (b : Button η) : List (Entry η) := (b.releasePending.map Entry.release).toList

def Button.flushes (released : Bool) (b : Button η) : Bool := b.releasePending.isNone || released

theorem flushRelease_eq (released : Bool) (b : Button η) : b.flushRelease released =
    if b.flushes released then (b.unpend, true, b.releaseLog) else (b, false, []) := by
  rw [Button.flushRelease, Button.flushes, Button.releaseLog]
  cases hpending : b.releasePending with
  | none =>
      have hb : b.unpend = b := by
        rw [Button.unpend, ← hpending]
      rw [hb]
      rfl
  | some release => cases released <;> rfl

def Button.Answer.behind (log : List (Entry η)) (a : Button.Answer η) : Button.Answer η :=
  { a with log := log ++ a.log }

/-- Nothing keeps the tick from acting. -/
structure Button.Acts (look : Look η) (view : Option Position) (b : Button η)
    (position : Position) (hand : η) (target : Option Target) : Prop where
  flushes : b.flushes look.released = true
  view : view = some position
  hand : look.hand = some hand
  target : look.target = some target
  mode : b.mode ≠ .off
  registry : b.registry = true
  free : look.mouseBlocked = false

/-- What a tick can do. -/
inductive Button.Ticks (look : Look η) (view : Option Position) (b : Button η) :
    Button.Answer η → Prop
  | waiting (h : b.flushes look.released = false) : Ticks look view b { button := b }
  | idle (h : b.flushes look.released = true) :
      Ticks look view b { button := b.unpend, log := b.releaseLog }
  | entity {position : Position} {hand : η} {target : Option Target} {entity : EntityHit}
      (hacts : b.Acts look view position hand target)
      (hentity : Button.entityInFront target look.entities = some entity) :
      Ticks look view b ((b.unpend.tickEntity look.now look.attacked entity).behind b.releaseLog)
  | right {position : Position} {hand : η} {target : Option Target}
      (hacts : b.Acts look view position hand target)
      (hentity : Button.entityInFront target look.entities = none) (hmode : b.mode = .right) :
      Ticks look view b ((b.unpend.tickRight look.now position hand target).behind b.releaseLog)
  | left {position : Position} {hand : η} {target : Option Target}
      (hacts : b.Acts look view position hand target)
      (hentity : Button.entityInFront target look.entities = none) (hmode : b.mode = .left) :
      Ticks look view b ((b.unpend.tickLeft look.now target).behind b.releaseLog)

theorem ticks (look : Look η) (view : Option Position) (b : Button η) :
    b.Ticks look view (b.tick look view) := by
  rw [Button.tick, flushRelease_eq]
  cases hflushes : b.flushes look.released with
  | false => exact .waiting hflushes
  | true =>
      simp only [if_true, Bool.not_true, Bool.false_eq_true, if_false]
      split
      · rename_i position hand target hhand htarget
        split
        · exact .idle hflushes
        · rename_i hactive
          simp only [Bool.or_eq_true, decide_eq_true_eq, not_or, Bool.not_eq_true,
            Bool.not_eq_false'] at hactive
          obtain ⟨⟨hmode, hregistry⟩, hfree⟩ := hactive
          have hacts : b.Acts look (some position) position hand target :=
            ⟨hflushes, rfl, hhand, htarget, hmode, hregistry, hfree⟩
          cases hentity : Button.entityInFront target look.entities with
          | some entity => exact .entity hacts hentity
          | none =>
              by_cases hright : b.mode = .right
              · simp only [show b.unpend.mode = .right from hright, if_true]
                exact .right hacts hentity hright
              · have hleft : b.mode = .left := by
                  cases hb : b.mode with
                  | off => exact absurd hb hmode
                  | left => rfl
                  | right => exact absurd hb hright
                simp only [show ¬b.unpend.mode = .right from hright, if_false]
                exact .left hacts hentity hleft
      · exact .idle hflushes

/-! ### The block -/

theorem tickTarget_spec (now : ℚ) (target : Target) (b : Button η) {aborts : List BlockAction}
    (block : Option Block) (haborts : breaking block aborts = some b.block)
    (hblock : ∀ m ∈ b.mining, m.position = target.position) :
    breaking block (b.tickTarget now target aborts).frame.blockActions =
        some ((b.tickTarget now target aborts).sent (b.tickTarget now target aborts).button).block ∧
      (b.tickTarget now target aborts).button = b := by
  rw [Button.tickTarget]
  cases hmining : b.mining with
  | none =>
      refine ⟨?_, rfl⟩
      rw [breaking_append, haborts, Button.block, hmining]
      rfl
  | some m =>
      have hposition := hblock m hmining
      simp only
      split
      · refine ⟨?_, rfl⟩
        rw [breaking_append, haborts, Button.block, hmining]
        simp [breaking, breakStep, hposition, Button.block, hmining]
      · refine ⟨?_, rfl⟩
        rw [breaking_append, haborts, Button.block, hmining]
        simp [breaking, breakStep, hposition, Button.block, hmining]

/-- An answer whose actions, once sent, lead to its block. -/
def Button.Answer.Leads (block : Option Block) (a : Button.Answer η) : Prop :=
  breaking block a.frame.blockActions = some (a.sent a.button).block

theorem tickEntity_spec (now : ℚ) (attacked : Bool) (entity : EntityHit) (b : Button η) :
    (b.tickEntity now attacked entity).Leads b.block ∧
      (b.tickEntity now attacked entity).button.block = b.block := by
  unfold Button.tickEntity
  split
  rename_i c log hc
  have hmining : c.mining = b.mining := by
    split at hc
    all_goals
      obtain ⟨rfl, -⟩ := Prod.mk.inj hc
      rfl
  have hblock : c.block = b.block := congrArg (Option.map _) hmining
  split
  · rename_i m hm
    refine ⟨?_, hblock⟩
    rw [← hblock, Button.block, hm]
    simp [Button.Answer.Leads, breaking, breakStep, Button.abortOf, Button.block]
  · exact ⟨congrArg some hblock.symm, hblock⟩

theorem tickLeft_spec (now : ℚ) (target : Option Target) (b : Button η) :
    (b.tickLeft now target).Leads b.block ∧
      (b.mining.any (Button.leaves · target) = false →
        (b.tickLeft now target).button.block = b.block) := by
  unfold Button.tickLeft
  split
  rename_i c aborts hc
  have hstart : breaking b.block aborts = some c.block ∧
      (b.mining.any (Button.leaves · target) = false → c.block = b.block) ∧
      ∀ m ∈ c.mining, Button.leaves m target = false := by
    cases hmining : b.mining with
    | none =>
        rw [hmining] at hc
        obtain ⟨rfl, rfl⟩ := Prod.mk.inj hc
        exact ⟨rfl, fun _ => rfl, by simp [hmining]⟩
    | some m =>
        rw [hmining] at hc
        simp only at hc
        split at hc
        · rename_i hleaves
          obtain ⟨rfl, rfl⟩ := Prod.mk.inj hc
          refine ⟨?_, fun h => ?_, by simp⟩
          · rw [Button.block, hmining]
            simp [breaking, breakStep, Button.abortOf, Button.block]
          · simp [hleaves] at h
        · rename_i hleaves
          obtain ⟨rfl, rfl⟩ := Prod.mk.inj hc
          refine ⟨rfl, fun _ => rfl, fun m' hm' => ?_⟩
          obtain rfl := Option.some.inj (hmining.symm.trans hm')
          exact Bool.eq_false_iff.mpr hleaves
  obtain ⟨haborts, hsame, hkeeps⟩ := hstart
  cases target with
  | none => exact ⟨haborts, hsame⟩
  | some target =>
      have hposition : ∀ m ∈ c.mining, m.position = target.position := by
        intro m hm
        have hkeep := hkeeps m hm
        simp only [Button.leaves, Option.all_some, Bool.or_eq_false_iff, decide_eq_false_iff_not,
          not_not] at hkeep
        exact hkeep.1
      obtain ⟨hleads, hbutton⟩ := tickTarget_spec now target c b.block haborts hposition
      refine ⟨hleads, fun h => ?_⟩
      rw [hbutton]
      exact hsame h

/-- Sent, the actions of a tick lead from the block before it to the one after it; not sent, they
leave the block, unless the tick lets go of it. -/
theorem tick_block (look : Look η) (view : Option Position) (b : Button η) :
    (b.tick look view).Leads b.block ∧
      (b.letsGo look view = false → (b.tick look view).button.block = b.block) := by
  have hticks := ticks look view b
  generalize b.tick look view = answer at hticks ⊢
  cases hticks with
  | waiting h => exact ⟨rfl, fun _ => rfl⟩
  | idle h => exact ⟨rfl, fun _ => rfl⟩
  | @entity _ _ _ entity hacts hentity =>
      have hspec := tickEntity_spec look.now look.attacked entity b.unpend
      exact ⟨hspec.1, fun _ => hspec.2⟩
  | right hacts hentity hmode =>
      rw [Button.tickRight]
      split
      · exact ⟨rfl, fun _ => rfl⟩
      · exact ⟨rfl, fun _ => rfl⟩
  | @left _ _ target hacts hentity hmode =>
      have hspec := tickLeft_spec look.now target b.unpend
      refine ⟨hspec.1, fun h => ?_⟩
      obtain ⟨hflushes, rfl, hhand, htarget, -, hregistry, hfree⟩ := hacts
      rw [Button.flushes] at hflushes
      have hkeeps : b.mining.any (Button.leaves · target) = false := by
        simpa [Button.letsGo, hflushes, hhand, htarget, hregistry, hfree, hmode, hentity] using h
      exact hspec.2 hkeeps

/-! ### Packets -/

theorem tickInput_cases (look : Look η) (accepted : Bool) (s : State η) :
    (s.tickInput look accepted = s) ∨
    (∃ packet tick, s.sender.position.isSome = true ∧
      s.sender.inputPacket (s.button.tick look s.sender.position).frame = some packet ∧
      s.tickInput look accepted =
        { sender := { s.sender with
            inputTick := tick, sneakEdge := false, handledTeleport := false, queuedBlockActions := [] }
          button := (s.button.tick look s.sender.position).sent
            (s.button.tick look s.sender.position).button
          log := s.log ++ (s.button.tick look s.sender.position).log ++ [.input packet] }) ∨
    (∃ tick, s.sender.runtimeEntityId.isSome = true ∧ accepted = false ∧
      s.tickInput look accepted =
        { sender := { s.sender with inputTick := tick }
          button := (s.button.tick look s.sender.position).button
          log := s.log ++ (s.button.tick look s.sender.position).log }) := by
  rw [State.tickInput]
  cases hid : s.sender.runtimeEntityId with
  | none => exact .inl rfl
  | some id =>
      cases hposition : s.sender.position with
      | none => exact .inl rfl
      | some position =>
          simp only [Option.isSome_some, Bool.and_self, if_true, Sender.tickInput]
          obtain ⟨packet, hpacket⟩ : ∃ packet, s.sender.inputPacket
              (s.button.tick look (some position)).frame = some packet := by
            rw [Sender.inputPacket, hid, hposition]
            exact ⟨_, rfl⟩
          rw [hpacket]
          cases accepted with
          | true => exact .inr (.inl ⟨packet, s.sender.inputTick + 1, trivial, rfl, rfl⟩)
          | false =>
              refine .inr (.inr ⟨s.sender.inputTick + 1, trivial, rfl, ?_⟩)
              simp

/-- The actions sent so far and those in the queue lead to the block that is mined. -/
def Tracks (s : State η) : Prop :=
  breaking none (blockActions s.log ++ s.sender.queuedBlockActions) = some s.button.block

theorem blockActions_append (log log' : List (Entry η)) :
    blockActions (log ++ log') = blockActions log ++ blockActions log' := List.flatMap_append

/-- What the use of an item is about stays the same. -/
structure SameUse (b c : Button η) : Prop where
  mode : b.mode = c.mode
  useRequested : b.useRequested = c.useRequested
  lastUseHand : b.lastUseHand = c.lastUseHand
  releasePending : b.releasePending = c.releasePending

theorem SameUse.refl (b : Button η) : SameUse b b := ⟨rfl, rfl, rfl, rfl⟩

/-- A frame without a click. -/
structure Still (b : Button η) (a : Button.Answer η) : Prop where
  flags : a.frame.flags = none
  transaction : a.frame.transaction = none
  button : SameUse a.button b
  sent : SameUse (a.sent a.button) b

/-- A frame with a click. -/
structure Clicks (b : Button η) (a : Button.Answer η) : Prop where
  mode : b.mode = .right
  flags : a.frame.flags = some ⟨true, !b.useRequested⟩
  button : SameUse a.button b
  sent : (a.sent a.button).mode = b.mode ∧ (a.sent a.button).useRequested = true ∧
    (a.sent a.button).lastUseHand.isSome = true ∧ (a.sent a.button).releasePending = b.releasePending
  log : a.log = []

/-- Attacks on entities only. -/
def Attacks (log : List (Entry η)) : Prop := ∀ entry ∈ log, ∃ entity mode, entry = .attack entity mode

theorem attacks_nil : Attacks ([] : List (Entry η)) := fun _ h => absurd h List.not_mem_nil

theorem tickEntity_use (now : ℚ) (attacked : Bool) (entity : EntityHit) (b : Button η) :
    Still b (b.tickEntity now attacked entity) ∧ Attacks (b.tickEntity now attacked entity).log := by
  unfold Button.tickEntity
  split
  rename_i c log hc
  have hsame : SameUse c b ∧ Attacks log := by
    split at hc
    · obtain ⟨rfl, rfl⟩ := Prod.mk.inj hc
      refine ⟨⟨rfl, rfl, rfl, rfl⟩, fun entry hentry => ?_⟩
      exact ⟨_, _, List.mem_singleton.mp hentry⟩
    · obtain ⟨rfl, rfl⟩ := Prod.mk.inj hc
      exact ⟨SameUse.refl _, attacks_nil⟩
  obtain ⟨⟨hmode, huse, hhand, hpending⟩, hlog⟩ := hsame
  split
  · exact ⟨⟨rfl, rfl, ⟨hmode, huse, hhand, hpending⟩, ⟨hmode, huse, hhand, hpending⟩⟩, hlog⟩
  · exact ⟨⟨rfl, rfl, ⟨hmode, huse, hhand, hpending⟩, ⟨hmode, huse, hhand, hpending⟩⟩, hlog⟩

theorem tickLeft_use (now : ℚ) (target : Option Target) (b : Button η) :
    Still b (b.tickLeft now target) ∧ (b.tickLeft now target).log = [] := by
  unfold Button.tickLeft
  split
  rename_i c aborts hc
  have hsame : SameUse c b := by
    split at hc
    · split at hc
      all_goals
        obtain ⟨rfl, -⟩ := Prod.mk.inj hc
        exact ⟨rfl, rfl, rfl, rfl⟩
    · obtain ⟨rfl, -⟩ := Prod.mk.inj hc
      exact SameUse.refl _
  obtain ⟨hmode, huse, hhand, hpending⟩ := hsame
  clear hc
  have hc : SameUse c b := ⟨hmode, huse, hhand, hpending⟩
  cases target with
  | none => exact ⟨⟨rfl, rfl, hc, hc⟩, rfl⟩
  | some target =>
      simp only [Button.tickTarget]
      split
      · exact ⟨⟨rfl, rfl, hc, ⟨hmode, huse, hhand, hpending⟩⟩, rfl⟩
      · split
        · exact ⟨⟨rfl, rfl, hc, ⟨hmode, huse, hhand, hpending⟩⟩, rfl⟩
        · exact ⟨⟨rfl, rfl, hc, hc⟩, rfl⟩

/-- What a tick does for the use of an item. -/
theorem tick_use (look : Look η) (view : Option Position) (b : Button η) :
    b.flushes look.released = false ∧ b.tick look view = { button := b } ∨
    b.flushes look.released = true ∧ ∃ hits, Attacks hits ∧
      (b.tick look view).log = b.releaseLog ++ hits ∧
      (Still b.unpend (b.tick look view) ∨
        Clicks b.unpend { b.tick look view with log := hits }) := by
  have hticks := ticks look view b
  generalize b.tick look view = answer at hticks ⊢
  cases hticks with
  | waiting h => exact .inl ⟨h, rfl⟩
  | idle h =>
      exact .inr ⟨h, [], attacks_nil, (List.append_nil _).symm,
        .inl ⟨rfl, rfl, SameUse.refl _, SameUse.refl _⟩⟩
  | @entity _ _ _ entity hacts hentity =>
      obtain ⟨⟨hflags, htransaction, hbutton, hsent⟩, hlog⟩ :=
        tickEntity_use look.now look.attacked entity b.unpend
      exact .inr ⟨hacts.flushes, _, hlog, rfl, .inl ⟨hflags, htransaction, hbutton, hsent⟩⟩
  | @left _ _ target hacts hentity hmode =>
      obtain ⟨⟨hflags, htransaction, hbutton, hsent⟩, hlog⟩ := tickLeft_use look.now target b.unpend
      refine .inr ⟨hacts.flushes, [], attacks_nil, ?_, .inl ⟨hflags, htransaction, hbutton, hsent⟩⟩
      rw [Button.Answer.behind, hlog]
  | right hacts hentity hmode =>
      refine .inr ⟨hacts.flushes, [], attacks_nil, ?_⟩
      rw [Button.tickRight]
      split
      · exact ⟨rfl, .inl ⟨rfl, rfl, SameUse.refl _, SameUse.refl _⟩⟩
      · exact ⟨rfl, .inr ⟨hmode, rfl, SameUse.refl _, ⟨rfl, rfl, rfl, rfl⟩, rfl⟩⟩

/-- Entries without a packet of input. -/
def Quiet (log : List (Entry η)) : Prop := blockActions log = []

theorem quiet_releaseLog (b : Button η) : Quiet b.releaseLog := by
  rw [Button.releaseLog]
  cases b.releasePending <;> rfl

theorem quiet_attacks {log : List (Entry η)} (h : Attacks log) : Quiet log := by
  refine List.flatMap_eq_nil_iff.mpr fun entry hentry => ?_
  obtain ⟨entity, mode, rfl⟩ := h entry hentry
  rfl

theorem quiet_tick (look : Look η) (view : Option Position) (b : Button η) :
    Quiet (b.tick look view).log := by
  rcases tick_use look view b with ⟨-, htick⟩ | ⟨-, hits, hhits, hlog, -⟩
  · rw [htick]
    rfl
  · rw [hlog, Quiet, blockActions_append, quiet_releaseLog, quiet_attacks hhits]
    rfl

theorem Tracks.tickInput {s : State η} (h : Tracks s) {look : Look η} {accepted : Bool}
    (hcareful : s.losesAbort (.tickInput look accepted) = false) : Tracks (s.tickInput look accepted) := by
  have hquiet := quiet_tick look s.sender.position s.button
  obtain ⟨hleads, hkeeps⟩ := tick_block look s.sender.position s.button
  rcases tickInput_cases look accepted s with hsame | ⟨packet, tick, -, hpacket, hstep⟩ |
    ⟨tick, hid, haccepted, hstep⟩
  · rw [hsame]
    exact h
  · rw [hstep, Tracks, blockActions_append, blockActions_append, hquiet, List.append_nil,
      List.append_nil]
    have hactions : blockActions [(Entry.input packet : Entry η)] = packet.blockAction :=
      List.append_nil _
    rw [hactions, BedrockSender.blockAction_inputPacket hpacket, ← List.append_assoc, breaking_append]
    rw [Tracks] at h
    rw [h]
    exact hleads
  · rw [State.losesAbort, hid, haccepted] at hcareful
    rw [hstep, Tracks, blockActions_append, hquiet, List.append_nil, hkeeps (by simpa using hcareful)]
    exact h

/-- The release that is pending once the mode changes. -/
def Button.pendingAfter (hand : Option η) (view : Option Position) (b : Button η) :
    Option (Release η) :=
  match view, hand.or b.lastUseHand with
  | some view, some hand =>
      if b.mode = .right ∧ b.useRequested then some ⟨hand, view⟩ else b.releasePending
  | _, _ => b.releasePending

/-- What a change of the mode does. -/
structure Configured (mode : Mode) (hand : Option η) (released : Bool) (s : State η)
    (t : State η) : Prop where
  newMode : t.button.mode = mode
  mining : t.button.mining = none
  useRequested : t.button.useRequested = false
  lastUseHand : t.button.lastUseHand = s.button.lastUseHand
  position : t.sender.position = s.sender.position
  queued : t.sender.queuedBlockActions =
    s.sender.queuedBlockActions ++ (s.button.mining.map Button.abortOf).toList
  flushed : (s.button.pendingAfter hand s.sender.position = none ∧
      t.button.releasePending = none ∧ t.log = s.log ++ [.modeChange s.button.mode mode]) ∨
    (∃ release, s.button.pendingAfter hand s.sender.position = some release ∧ released = true ∧
      t.button.releasePending = none ∧
      t.log = s.log ++ [.modeChange s.button.mode mode, .release release]) ∨
    ∃ release, s.button.pendingAfter hand s.sender.position = some release ∧
      t.button.releasePending = some release ∧ t.log = s.log ++ [.modeChange s.button.mode mode]

theorem configure_eq {mode : Mode} (hand : Option η) (released : Bool) (sender : Sender BlockAction)
    {b : Button η} (h : mode ≠ b.mode) : b.configure mode hand released sender =
      let pending : Button η := { b with releasePending := b.pendingAfter hand sender.position }
      ({ (pending.flushRelease released).1 with
          mode := mode
          mining := none
          useUntil := 0
          useRequested := false
          registry := b.registry || (mode ≠ .off && b.startGameData) },
        (match b.mining with
          | some m => sender.queueBlockAction (Button.abortOf m)
          | none => sender),
        .modeChange b.mode mode :: (pending.flushRelease released).2.2) := by
  rw [Button.configure, if_neg h]
  rfl

theorem configured {mode : Mode} (hand : Option η) (released : Bool) {s : State η}
    (h : mode ≠ s.button.mode) :
    Configured mode hand released s (s.step (.configure mode hand released)) := by
  rw [State.step, configure_eq hand released s.sender h]
  have hsender : (match s.button.mining with
      | some m => s.sender.queueBlockAction (Button.abortOf m)
      | none => s.sender).position = s.sender.position := by
    cases s.button.mining <;> rfl
  have hqueued : (match s.button.mining with
      | some m => s.sender.queueBlockAction (Button.abortOf m)
      | none => s.sender).queuedBlockActions =
        s.sender.queuedBlockActions ++ (s.button.mining.map Button.abortOf).toList := by
    cases s.button.mining with
    | none => exact (List.append_nil _).symm
    | some m => rfl
  cases hpending : s.button.pendingAfter hand s.sender.position with
  | none => exact ⟨rfl, rfl, rfl, rfl, hsender, hqueued, .inl ⟨hpending, rfl, rfl⟩⟩
  | some release =>
      cases released with
      | true =>
          exact ⟨rfl, rfl, rfl, rfl, hsender, hqueued, .inr (.inl ⟨release, hpending, rfl, rfl, rfl⟩)⟩
      | false =>
          exact ⟨rfl, rfl, rfl, rfl, hsender, hqueued, .inr (.inr ⟨release, hpending, rfl, rfl⟩)⟩

theorem Tracks.step {s : State η} (h : Tracks s) {event : Event η}
    (hcareful : s.losesAbort event = false) : Tracks (s.step event) := by
  cases event with
  | configure mode hand released =>
      by_cases hmode : mode = s.button.mode
      · have hsame : s.step (.configure mode hand released) = s := by
          rw [State.step, Button.configure, if_pos hmode]
          simp
        rw [hsame]
        exact h
      · have hstep := configured hand released hmode
        generalize s.step (.configure mode hand released) = t at hstep ⊢
        have hlog : blockActions t.log = blockActions s.log := by
          rcases hstep.flushed with ⟨-, -, hlog⟩ | ⟨_, -, -, -, hlog⟩ | ⟨_, -, -, hlog⟩
          all_goals
            rw [hlog, blockActions_append]
            exact List.append_nil _
        rw [Tracks, hlog, hstep.queued, ← List.append_assoc, breaking_append, h, Button.block,
          Button.block, hstep.mining]
        cases s.button.mining with
        | none => rfl
        | some m => simp [breaking, breakStep, Button.abortOf]
  | tickInput look accepted => exact h.tickInput hcareful
  | updatePosition position pitch yaw teleport =>
      cases position with
      | none => exact h
      | some position => exact h
  | _ => exact h

/-- Nothing but aborts waits in the queue. -/
def AbortsOnly (s : State η) : Prop :=
  ∀ action ∈ s.sender.queuedBlockActions, action.action = .abortBreak

theorem AbortsOnly.step {s : State η} (h : AbortsOnly s) (event : Event η) :
    AbortsOnly (s.step event) := by
  cases event with
  | configure mode hand released =>
      by_cases hmode : mode = s.button.mode
      · rw [State.step, Button.configure, if_pos hmode]
        exact h
      · have hqueued := (configured hand released hmode).queued
        rw [AbortsOnly, hqueued]
        intro action haction
        rcases List.mem_append.mp haction with haction | haction
        · exact h action haction
        · rw [Option.mem_toList, Option.map_eq_some_iff] at haction
          obtain ⟨m, -, rfl⟩ := haction
          rfl
  | tickInput look accepted =>
      rw [State.step]
      rcases tickInput_cases look accepted s with hsame | ⟨packet, tick, -, -, hstep⟩ |
        ⟨tick, -, -, hstep⟩
      · rw [hsame]
        exact h
      · rw [hstep]
        exact fun action haction => absurd haction List.not_mem_nil
      · rw [hstep]
        exact h
  | updatePosition position pitch yaw teleport =>
      cases position with
      | none => exact h
      | some position => exact h
  | _ => exact h

theorem run_breaks {s : State η} {events : List (Event η)} (hcareful : Careful s events)
    (htracks : Tracks s) (haborts : AbortsOnly s) :
    Tracks (s.run events) ∧ AbortsOnly (s.run events) := by
  induction events generalizing s with
  | nil => exact ⟨htracks, haborts⟩
  | cons event events ih =>
      rw [State.run, List.foldl_cons]
      exact ih hcareful.2 (htracks.step hcareful.1) (haborts.step event)

/-- The button still mines the block, or an abort of it waits. -/
def Answers (s : State η) (block : Block) : Prop :=
  s.button.block = some block ∨
    ∃ action ∈ s.sender.queuedBlockActions, action.action = .abortBreak ∧ action.position = block

/-- The actions that were sent make sense, and the block that they leave is not forgotten. -/
def Breaks (s : State η) : Prop :=
  ∃ block, breaking none (blockActions s.log) = some block ∧ ∀ b ∈ block, Answers s b

theorem Tracks.breaks {s : State η} (h : Tracks s) (haborts : AbortsOnly s) : Breaks s := by
  rw [Tracks, breaking_append, Option.bind_eq_some_iff] at h
  obtain ⟨block, hsent, hqueued⟩ := h
  refine ⟨block, hsent, fun b hb => ?_⟩
  obtain rfl := Option.mem_def.mp hb
  cases hqueue : s.sender.queuedBlockActions with
  | nil =>
      rw [hqueue] at hqueued
      exact .inl (Option.some.inj hqueued).symm
  | cons action rest =>
      have hmem : action ∈ s.sender.queuedBlockActions := hqueue ▸ List.mem_cons_self
      have habort := haborts action hmem
      refine .inr ⟨action, hmem, habort, ?_⟩
      rw [hqueue, breaking, List.foldlM_cons] at hqueued
      obtain ⟨kind, position, face⟩ := action
      obtain rfl : kind = .abortBreak := habort
      by_contra hne
      rw [breakStep, if_neg hne] at hqueued
      cases hqueued

/-! ### The use of an item -/

/-- What the server knows of the right button. -/
inductive Use
  | idle
  | started
  | owed

/-- The input of a packet is one of the mouse. -/
def clicks (packet : Packet BlockAction (ItemUse η)) : Bool :=
  packet.transaction.isSome || packet.inputData.has "item_interact" || !packet.blockAction.isEmpty

/-- A use that was started is released once, before any further input of the mouse. -/
def useStep : Use → Entry η → Option Use
  | .started, .modeChange .right _ => some .owed
  | use, .modeChange _ _ => some use
  | .owed, .release _ => some .idle
  | _, .release _ => none
  | .owed, .attack _ _ => none
  | use, .attack _ _ => some use
  | .owed, .input packet => if clicks packet then none else some .owed
  | use, .input packet => some (if packet.inputData.has "start_using_item" then .started else use)

def uses (use : Use) (log : List (Entry η)) : Option Use := log.foldlM useStep use

theorem uses_append (use : Use) (log more : List (Entry η)) :
    uses use (log ++ more) = (uses use log).bind (uses · more) := List.foldlM_append

/-- The state agrees with what the server knows. -/
def Holds (s : State η) : Use → Prop
  | .idle => s.button.useRequested = false ∧ s.button.releasePending = none
  | .started => s.button.useRequested = true ∧ s.button.mode = .right ∧
      s.button.releasePending = none ∧ s.button.lastUseHand.isSome = true ∧
      s.sender.position.isSome = true ∧ s.sender.queuedBlockActions = []
  | .owed => s.button.useRequested = false ∧ s.button.releasePending.isSome = true ∧
      s.sender.queuedBlockActions = [] ∧ s.button.mining = none

structure Uses (s : State η) (use : Use) : Prop where
  log : uses .idle s.log = some use
  holds : Holds s use
  mining : s.button.mode = .right → s.button.mining = none

theorem uses_attacks {use : Use} (huse : use ≠ .owed) {log : List (Entry η)} (h : Attacks log) :
    uses use log = some use := by
  induction log with
  | nil => rfl
  | cons entry log ih =>
      obtain ⟨entity, mode, rfl⟩ := h entry List.mem_cons_self
      have ih := ih fun entry hentry => h entry (List.mem_cons_of_mem _ hentry)
      rw [uses, List.foldlM_cons]
      cases use with
      | idle => exact ih
      | started => exact ih
      | owed => exact absurd rfl huse

/-- The right button mines nothing. -/
theorem tick_right (look : Look η) (view : Option Position) {b : Button η} (hmode : b.mode = .right)
    (hmining : b.mining = none) : (b.tick look view).button.mining = none ∧
      ((b.tick look view).sent (b.tick look view).button).mining = none := by
  obtain ⟨hleads, hkeeps⟩ := tick_block look view b
  have hblock : b.block = none := by
    rw [Button.block, hmining]
    rfl
  have hletsGo : b.letsGo look view = false := by simp [Button.letsGo, hmode]
  have hbutton := hkeeps hletsGo
  have hactions : (b.tick look view).frame.blockActions = [] := by
    have hticks := ticks look view b
    generalize b.tick look view = answer at hticks ⊢
    cases hticks with
    | waiting h => rfl
    | idle h => rfl
    | entity hacts hentity =>
        unfold Button.tickEntity
        split
        rename_i c log hc
        have hc : c.mining = none := by
          split at hc
          all_goals
            obtain ⟨rfl, -⟩ := Prod.mk.inj hc
            exact hmining
        rw [Button.Answer.behind]
        simp only [hc]
    | right hacts hentity hmode =>
        rw [Button.tickRight]
        split <;> rfl
    | left hacts hentity hleft => cases hleft.symm.trans hmode
  rw [Button.Answer.Leads, hactions, hblock] at hleads
  rw [hblock] at hbutton
  exact ⟨Option.map_eq_none_iff.mp hbutton, Option.map_eq_none_iff.mp (Option.some.inj hleads).symm⟩

theorem has_clicks {s : State η} {a : Button.Answer η} {packet : Packet BlockAction (ItemUse η)}
    (h : s.sender.inputPacket a.frame = some packet) :
    packet.inputData.has "start_using_item" = (a.frame.flags.map (·.startUsingItem)).getD false ∧
      packet.inputData.has "item_interact" = (a.frame.flags.map (·.itemInteract)).getD false := by
  rw [BedrockSender.has_inputPacket h, BedrockSender.has_inputPacket h, Sender.inputFlags]
  cases a.frame.flags <;> exact ⟨rfl, rfl⟩

theorem Holds.still {s t : State η} {use : Use} (h : Holds s use)
    (hsame : SameUse t.button s.button) (hposition : t.sender.position = s.sender.position)
    (hqueued : s.sender.queuedBlockActions = [] → t.sender.queuedBlockActions = [])
    (hmining : use = .owed → t.button.mining = none) : Holds t use := by
  obtain ⟨hmode, huse, hhand, hpending⟩ := hsame
  cases use with
  | idle => exact ⟨huse.trans h.1, hpending.trans h.2⟩
  | started =>
      obtain ⟨hrequested, hright, hnone, hlast, hview, hqueue⟩ := h
      exact ⟨huse.trans hrequested, hmode.trans hright, hpending.trans hnone,
        (congrArg Option.isSome hhand).trans hlast, (congrArg Option.isSome hposition).trans hview,
        hqueued hqueue⟩
  | owed =>
      obtain ⟨hrequested, hsome, hqueue, -⟩ := h
      exact ⟨huse.trans hrequested, (congrArg Option.isSome hpending).trans hsome, hqueued hqueue,
        hmining rfl⟩

/-- A release that was owed is sent at last; nothing else is. -/
theorem Uses.flush {s : State η} {use : Use} (h : Uses s use) :
    ∃ use' ≠ Use.owed, Uses { s with button := s.button.unpend, log := s.log ++ s.button.releaseLog }
      use' := by
  obtain ⟨hlog, hholds, hmining⟩ := h
  cases use with
  | idle =>
      refine ⟨.idle, nofun, ?_, ⟨hholds.1, rfl⟩, hmining⟩
      rw [Button.releaseLog, hholds.2, uses_append, hlog]
      rfl
  | started =>
      obtain ⟨hrequested, hright, hnone, hlast, hview, hqueue⟩ := hholds
      refine ⟨.started, nofun, ?_, ⟨hrequested, hright, rfl, hlast, hview, hqueue⟩, hmining⟩
      rw [Button.releaseLog, hnone, uses_append, hlog]
      rfl
  | owed =>
      obtain ⟨release, hrelease⟩ := Option.isSome_iff_exists.mp hholds.2.1
      refine ⟨.idle, nofun, ?_, ⟨hholds.1, rfl⟩, hmining⟩
      rw [Button.releaseLog, hrelease, uses_append, hlog]
      rfl

/-- While the release is owed, a tick sends nothing of the mouse. -/
theorem Uses.tickWaiting {s : State η} {use : Use} (h : Uses s use) {look : Look η} {accepted : Bool}
    (hflushes : s.button.flushes look.released = false)
    (htick : s.button.tick look s.sender.position = { button := s.button }) :
    Uses (s.tickInput look accepted) use := by
  obtain ⟨hlog, hholds, hmining⟩ := h
  have howed : use = .owed := by
    rw [Button.flushes, Bool.or_eq_false_iff, Option.isNone_eq_false_iff] at hflushes
    cases use with
    | idle =>
        rw [hholds.2] at hflushes
        cases hflushes.1
    | started =>
        rw [hholds.2.2.1] at hflushes
        cases hflushes.1
    | owed => rfl
  subst howed
  have hqueue := hholds.2.2.1
  rcases tickInput_cases look accepted s with hsame | ⟨packet, tick, -, hpacket, hstep⟩ |
    ⟨tick, -, -, hstep⟩
  · rw [hsame]
    exact ⟨hlog, hholds, hmining⟩
  · rw [htick] at hpacket hstep
    have hclicks : clicks packet = false := by
      rw [clicks, (has_clicks hpacket).2, BedrockSender.blockAction_inputPacket hpacket, hqueue]
      unfold Sender.inputPacket at hpacket
      split at hpacket
      · obtain rfl := Option.some.inj hpacket
        rfl
      · cases hpacket
    rw [hstep]
    refine ⟨?_, hholds.still (SameUse.refl _) rfl (fun _ => rfl) fun _ => hholds.2.2.2, hmining⟩
    rw [List.append_nil, uses_append, hlog]
    simp [uses, useStep, hclicks]
  · rw [htick] at hstep
    rw [hstep]
    refine ⟨?_, hholds.still (SameUse.refl _) rfl id fun _ => hholds.2.2.2, hmining⟩
    rw [List.append_nil]
    exact hlog

/-- A tick without a pending release, whose log is that of its attacks. -/
theorem Uses.tickActing {s : State η} {use : Use} (h : Uses s use) (huse : use ≠ .owed)
    {a : Button.Answer η} {hits : List (Entry η)} (hhits : Attacks hits)
    (hanswer : Still s.button a ∨ Clicks s.button { a with log := hits })
    (hmining : s.button.mode = .right →
      a.button.mining = none ∧ (a.sent a.button).mining = none) :
    (∀ tick, Uses ⟨{ s.sender with inputTick := tick }, a.button, s.log ++ hits⟩ use) ∧
    ∀ packet tick, s.sender.position.isSome = true → s.sender.inputPacket a.frame = some packet →
      ∃ use', Uses ⟨{ s.sender with
          inputTick := tick, sneakEdge := false, handledTeleport := false, queuedBlockActions := [] },
        a.sent a.button, s.log ++ hits ++ [.input packet]⟩ use' := by
  have hlog : uses .idle (s.log ++ hits) = some use := by
    rw [uses_append, h.log]
    exact uses_attacks huse hhits
  have hinput : ∀ packet : Packet BlockAction (ItemUse η),
      uses .idle (s.log ++ hits ++ [.input packet]) =
        some (if packet.inputData.has "start_using_item" then .started else use) := by
    intro packet
    rw [uses_append, hlog]
    cases use with
    | idle => rfl
    | started => rfl
    | owed => exact absurd rfl huse
  have hright : ∀ {c : Button η}, c.mode = s.button.mode →
      (s.button.mode = .right → c.mining = none) → c.mode = .right → c.mining = none :=
    fun hmode hnone hright => hnone (hmode.symm.trans hright)
  have hstays : ∀ {t : State η}, SameUse t.button s.button → t.sender.position = s.sender.position →
      (s.sender.queuedBlockActions = [] → t.sender.queuedBlockActions = []) → Holds t use :=
    fun hsame hposition hqueued =>
      h.holds.still hsame hposition hqueued fun howed => absurd howed huse
  rcases hanswer with ⟨hflags, htransaction, hbutton, hsent⟩ | ⟨hmode, hflags, hbutton, hsent, hnil⟩
  · refine ⟨fun tick => ⟨hlog, hstays hbutton rfl id, hright hbutton.mode fun h => (hmining h).1⟩,
      fun packet tick hview hpacket => ⟨use, ?_, hstays hsent rfl fun _ => rfl,
        hright hsent.mode fun h => (hmining h).2⟩⟩
    rw [hinput, (has_clicks hpacket).1, hflags]
    rfl
  · refine ⟨fun tick => ⟨hlog, hstays hbutton rfl id, hright hbutton.mode fun h => (hmining h).1⟩,
      fun packet tick hview hpacket => ⟨.started, ?_, ?_, hright hsent.1 fun h => (hmining h).2⟩⟩
    · rw [hinput, (has_clicks hpacket).1]
      simp only at hflags
      rw [hflags]
      cases use with
      | idle =>
          rw [h.holds.1]
          rfl
      | started => simp
      | owed => exact absurd rfl huse
    · have hnone : s.button.releasePending = none := by
        cases use with
        | idle => exact h.holds.2
        | started => exact h.holds.2.2.1
        | owed => exact absurd rfl huse
      exact ⟨hsent.2.1, hsent.1.trans hmode, hsent.2.2.2.trans hnone, hsent.2.2.1, hview, rfl⟩

theorem Uses.tickInput {s : State η} {use : Use} (h : Uses s use) (look : Look η) (accepted : Bool) :
    ∃ use', Uses (s.tickInput look accepted) use' := by
  rcases tick_use look s.sender.position s.button with ⟨hflushes, htick⟩ |
    ⟨-, hits, hhits, hlog, hanswer⟩
  · exact ⟨use, h.tickWaiting hflushes htick⟩
  · obtain ⟨use', huse, hflushed⟩ := h.flush
    obtain ⟨hfailed, hsent⟩ := hflushed.tickActing huse hhits hanswer fun hmode =>
      tick_right look s.sender.position hmode (h.mining hmode)
    rcases tickInput_cases look accepted s with hsame | ⟨packet, tick, hview, hpacket, hstep⟩ |
      ⟨tick, -, -, hstep⟩
    · rw [hsame]
      exact ⟨use, h⟩
    · rw [hstep, hlog, ← List.append_assoc]
      exact hsent packet tick hview hpacket
    · rw [hstep, hlog, ← List.append_assoc]
      exact ⟨use', hfailed tick⟩

theorem Uses.configure {s : State η} {use : Use} (h : Uses s use) {mode : Mode} (hand : Option η)
    (released : Bool) (hmode : mode ≠ s.button.mode) :
    ∃ use', Uses (s.step (.configure mode hand released)) use' := by
  obtain ⟨hlog, hholds, hmining⟩ := h
  have hstep := configured hand released hmode
  generalize s.step (.configure mode hand released) = t at hstep ⊢
  obtain ⟨-, hnone, hrequested, -, -, hqueued, hflushed⟩ := hstep
  cases use with
  | idle =>
      have hpending : s.button.pendingAfter hand s.sender.position = none := by
        rw [Button.pendingAfter.eq_def, hholds.1, hholds.2]
        split <;> simp
      rw [hpending] at hflushed
      rcases hflushed with ⟨-, hreleased, hadded⟩ | ⟨_, hsome, -⟩ | ⟨_, hsome, -⟩
      · refine ⟨.idle, ?_, ⟨hrequested, hreleased⟩, fun _ => hnone⟩
        rw [hadded, uses_append, hlog]
        rfl
      · cases hsome
      · cases hsome
  | started =>
      obtain ⟨huse, hright, -, hlast, hview, hqueue⟩ := hholds
      obtain ⟨last, hlast⟩ := Option.isSome_iff_exists.mp hlast
      obtain ⟨view, hview⟩ := Option.isSome_iff_exists.mp hview
      have hpending : s.button.pendingAfter hand s.sender.position =
          some ⟨hand.getD last, view⟩ := by
        rw [Button.pendingAfter.eq_def, hview, hlast]
        cases hand <;> simp [hright, huse]
      rw [hqueue, hmining hright] at hqueued
      rw [hpending] at hflushed
      rcases hflushed with ⟨hsome, -⟩ | ⟨release, -, -, hreleased, hadded⟩ |
        ⟨release, -, howed, hadded⟩
      · cases hsome
      · refine ⟨.idle, ?_, ⟨hrequested, hreleased⟩, fun _ => hnone⟩
        rw [hadded, uses_append, hlog, hright]
        rfl
      · refine ⟨.owed, ?_, ⟨hrequested, Option.isSome_iff_exists.mpr ⟨_, howed⟩, hqueued, hnone⟩,
          fun _ => hnone⟩
        rw [hadded, uses_append, hlog, hright]
        rfl
  | owed =>
      obtain ⟨huse, hsome, hqueue, hnoMining⟩ := hholds
      obtain ⟨release, hrelease⟩ := Option.isSome_iff_exists.mp hsome
      have hpending : s.button.pendingAfter hand s.sender.position = some release := by
        rw [Button.pendingAfter.eq_def, huse, hrelease]
        split <;> simp
      rw [hqueue, hnoMining] at hqueued
      rw [hpending] at hflushed
      rcases hflushed with ⟨hnever, -⟩ | ⟨release, -, -, hreleased, hadded⟩ |
        ⟨release, -, howed, hadded⟩
      · cases hnever
      · refine ⟨.idle, ?_, ⟨hrequested, hreleased⟩, fun _ => hnone⟩
        rw [hadded, uses_append, hlog]
        rfl
      · refine ⟨.owed, ?_, ⟨hrequested, Option.isSome_iff_exists.mpr ⟨_, howed⟩, hqueued, hnone⟩,
          fun _ => hnone⟩
        rw [hadded, uses_append, hlog]
        rfl

theorem Uses.step {s : State η} {use : Use} (h : Uses s use) (event : Event η) :
    ∃ use', Uses (s.step event) use' := by
  cases event with
  | configure mode hand released =>
      by_cases hmode : mode = s.button.mode
      · refine ⟨use, ?_⟩
        rw [State.step, Button.configure, if_pos hmode]
        simpa using h
      · exact h.configure hand released hmode
  | tickInput look accepted => exact h.tickInput look accepted
  | updatePosition position pitch yaw teleport =>
      refine ⟨use, ?_⟩
      cases position with
      | none => exact h
      | some position =>
          obtain ⟨hlog, hholds, hmining⟩ := h
          refine ⟨hlog, ?_, hmining⟩
          cases use with
          | idle => exact hholds
          | started => exact ⟨hholds.1, hholds.2.1, hholds.2.2.1, hholds.2.2.2.1, rfl, hholds.2.2.2.2.2⟩
          | owed => exact hholds
  | observeMetadata usingItem =>
      refine ⟨use, h.log, ?_, h.mining⟩
      have hholds := h.holds
      cases use <;> exact hholds
  | setRuntimeEntityId id =>
      refine ⟨use, h.log, ?_, h.mining⟩
      have hholds := h.holds
      cases use <;> exact hholds
  | setInputTick tick =>
      refine ⟨use, h.log, ?_, h.mining⟩
      have hholds := h.holds
      cases use <;> exact hholds
  | setSneak sneaking resync =>
      refine ⟨use, h.log, ?_, h.mining⟩
      have hholds := h.holds
      cases use <;> exact hholds

theorem run_uses {s : State η} {use : Use} (h : Uses s use) (events : List (Event η)) :
    ∃ use', Uses (s.run events) use' := by
  induction events generalizing s use with
  | nil => exact ⟨use, h⟩
  | cons event events ih =>
      rw [State.run, List.foldl_cons]
      obtain ⟨use', hstep⟩ := h.step event
      exact ih hstep

/-- Between two resets or teleports a use is released once, before any further input of the mouse.
One block is broken at a time and no abort is lost, as long as no tick that lets go of the block
fails to send its packet. -/
theorem run_breaks_one (s : State η) (events : List (Event η)) :
    (∃ use, uses .idle (s.cleared.run events).log = some use ∧
      (use = .owed → (s.cleared.run events).button.releasePending.isSome = true)) ∧
    (Careful s.cleared events → Breaks (s.cleared.run events)) := by
  constructor
  · have hcleared : Uses s.cleared .idle := ⟨rfl, ⟨rfl, rfl⟩, fun _ => rfl⟩
    obtain ⟨use, hlog, hholds, -⟩ := run_uses hcleared events
    refine ⟨use, hlog, fun howed => ?_⟩
    subst howed
    exact hholds.2.1
  · intro hcareful
    have haborts : AbortsOnly s.cleared := fun action haction => absurd haction List.not_mem_nil
    obtain ⟨htracks, haborts⟩ := run_breaks hcareful rfl haborts
    exact htracks.breaks haborts

/-- A bot that stands in the world, with the left button held. -/
def digger : State Unit where
  sender := { modern := true, runtimeEntityId := some 123, position := some ⟨0, 65, 0⟩ }
  button := { mode := .left, registry := true }

def stone (x : ℤ) : Target := ⟨(x, 65, 0), 1, 2, 4, ⟨x, 65, 0⟩, some 1000⟩

def lookAt (now : ℚ) (target : Option Target) : Look Unit :=
  ⟨now, true, some (), false, some target, [], true⟩

/-- The block in reach changes while a packet is not sent. -/
def turning : List (Event Unit) :=
  [.tickInput (lookAt 0 (some (stone 1))) true, .tickInput (lookAt 50 none) false,
    .tickInput (lookAt 100 (some (stone 2))) true]

theorem run_breaks_two : ¬∀ (s : State Unit) (events : List (Event Unit)),
    Breaks (s.cleared.run events) := by
  intro h
  obtain ⟨block, hblock, -⟩ := h digger turning
  have hsent : blockActions (digger.cleared.run turning).log =
      [⟨.startBreak, (1, 65, 0), 4⟩, ⟨.startBreak, (2, 65, 0), 4⟩] := by decide +kernel
  rw [hsent] at hblock
  cases hblock

theorem run_breaks_one_digger : Breaks (digger.cleared.run
    [.tickInput (lookAt 0 (some (stone 1))) true, .configure .off none true,
      .tickInput (lookAt 50 none) false]) :=
  (run_breaks_one digger _).2 ⟨rfl, rfl, by decide +kernel, trivial⟩

end AfkClient.MouseButton

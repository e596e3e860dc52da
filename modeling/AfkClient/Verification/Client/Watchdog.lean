import AfkClient.Verification.Client.Lifecycle

/-! The watchdog of an online bot. It looks every 15 seconds, and what it sees is the last
sign of life and the last reported outage, so an outage reported just before each look
keeps a silent bot online, and so does every recovery. -/

namespace AfkClient.Client

open Lifecycle

/-! ### What the watchdog sees -/

structure Pulse where
  subprocess : Option ℕ
  status : ClientStatus
  watchdog : TimerVar ℤ
  heartbeat : ℤ
  failure : Option ℤ
  now : ℤ

def pulse (s : Client) : Pulse where
  subprocess := s.subprocess
  status := s.status
  watchdog := s.onlineWatchdog
  heartbeat := s.lastHeartbeatAt
  failure := s.lastControlFailureAt
  now := s.now

/-- What a step can do that neither moves the clock nor brings news of the bot. -/
inductive Pulse.Step (p : Pulse) : Pulse → Prop where
  | kept : Step p p
  | ended {q : Pulse} (hs : q.status ≠ .online) (hc : q.subprocess = none) (hn : q.now = p.now)
      (hh : q.heartbeat = p.heartbeat) (hf : q.failure = p.failure ∨ q.failure = none) : Step p q
  | started {q : Pulse} (hs : q.status ≠ .online)
      (hw : ∃ handle, q.watchdog.pending = [(handle, p.now + ONLINE_WATCHDOG_INTERVAL_MS)])
      (hn : q.now = p.now) (hh : q.heartbeat = p.now) (hf : q.failure = none) : Step p q

theorem Aside.pulse {s t : Client} (h : Aside s t) : t.pulse = s.pulse := by
  rw [h.eq]
  rfl

/-! ### Effects of the handlers -/

theorem setStatus_pulse (s : Client) (status : ClientStatus) :
    (s.setStatus status).pulse = { s.pulse with status := status } := (setStatus_aside s status).pulse

theorem endConnection_pulse (s : Client) (reason : String) :
    (s.endConnection reason).pulse =
      { s.pulse with subprocess := none, watchdog := s.onlineWatchdog.clear } :=
  (teardownSubprocess_aside _).pulse

theorem scheduleReconnect_pulse (s : Client) (reason : String) (stableForMs : ℤ) :
    (s.scheduleReconnect reason stableForMs).pulse = { s.pulse with status := .reconnecting } :=
  (scheduleReconnect_aside s reason stableForMs).pulse

theorem handleConnectionFailure_pulse_ended {s : Client} (he : s.connectionEnded = false)
    (reason : String) : ∃ status ≠ ClientStatus.online,
      (s.handleConnectionFailure reason).pulse =
        { s.pulse with
          subprocess := none, watchdog := s.onlineWatchdog.clear, status := status } := by
  have hend := endConnection_pulse s reason
  simp only [handleConnectionFailure, he]
  generalize s.endConnection reason = t at hend
  rw [if_neg (by simp)]
  split
  · exact ⟨.offline, by decide, by rw [setStatus_pulse, hend]⟩
  split
  · refine ⟨.error, by decide, ?_⟩
    rw [setStatus_pulse, (emitConsole_aside _ _ _).pulse, hend]
  · exact ⟨.reconnecting, by decide, by rw [scheduleReconnect_pulse, hend]⟩

theorem handleConnectionFailure_pulse {s t : Client} (h : t.pulse = s.pulse) (reason : String) :
    s.pulse.Step (t.handleConnectionFailure reason).pulse := by
  by_cases he : t.connectionEnded
  · rw [handleConnectionFailure, if_pos he, h]
    exact .kept
  · obtain ⟨status, hs, hp⟩ := handleConnectionFailure_pulse_ended (by simpa using he) reason
    rw [hp, h]
    exact .ended hs rfl rfl rfl (.inl rfl)

theorem startController_pulse (s : Client) :
    s.startController.pulse =
      { s.pulse with
        subprocess := some s.created, heartbeat := s.now
        watchdog := s.onlineWatchdog.clear.arm (s.now + ONLINE_WATCHDOG_INTERVAL_MS) } := by
  simp [startController, createSoulFireController, emit, startOnlineWatchdog, clearOnlineWatchdog,
    sendToBot, armHangTimer, pulse]

theorem attemptConnect_pulse {s t : Client} (h : t.pulse = s.pulse) (hw : s.onlineWatchdog.Tracked)
    (reconnecting : Bool) : s.pulse.Step (t.attemptConnect reconnecting).pulse := by
  have hbegin : (t.beginAttempt reconnecting).pulse =
      { s.pulse with
        failure := none, status := if reconnecting then .reconnecting else .connecting } := by
    rw [← h]
    exact setStatus_pulse _ _
  have hopen : (t.beginAttempt reconnecting).connectionEnded = false :=
    congrArg Lifecycle.connectionEnded (beginAttempt_lifecycle t reconnecting)
  have hoff : (if reconnecting then ClientStatus.reconnecting else .connecting) ≠ .online := by
    cases reconnecting <;> decide
  simp only [attemptConnect]
  generalize t.beginAttempt reconnecting = u at hbegin hopen
  cases u.spawnError with
  | some message =>
      obtain ⟨status, hs, hp⟩ := handleConnectionFailure_pulse_ended hopen message
      simp only [hp, hbegin]
      exact .ended hs rfl rfl rfl (.inr rfl)
  | none =>
      have hwatchdog : u.onlineWatchdog = s.onlineWatchdog := congrArg Pulse.watchdog hbegin
      have hnow : u.now = s.now := congrArg Pulse.now hbegin
      simp only [startController_pulse, hbegin, hwatchdog, hnow]
      refine .started hoff ⟨s.onlineWatchdog.clear.next, ?_⟩ rfl rfl rfl
      simp only [TimerVar.arm, hw.clear_pending]
      rfl

/-! ### Steps -/

/-- The bot shows that it is alive, or its control service that it is back. -/
def SignOfLife (s : Client) : Input → Prop
  | .line child .heartbeat => s.subprocess = some child
  | .line child .spawn => s.subprocess = some child
  | .line child (.controlStatus (some true) _) =>
      s.subprocess = some child ∧ s.lastControlFailureAt.isSome
  | _ => False

instance (s : Client) (i : Input) : Decidable (SignOfLife s i) := by
  unfold SignOfLife
  split <;> infer_instance

def OutageReport (s : Client) : Input → Prop
  | .line child (.controlStatus (some false) _) => s.subprocess = some child
  | _ => False

instance (s : Client) (i : Input) : Decidable (OutageReport s i) := by
  unfold OutageReport
  split <;> infer_instance

theorem kept_of_pulse {s t : Client} (h : t.pulse = s.pulse) : s.pulse.Step t.pulse := by
  rw [h]
  exact .kept

theorem handleChat_pulse (s : Client) (sender : Option String) (message : String) :
    s.pulse.Step (s.handleChat sender message).pulse := by
  obtain ⟨restartAt, hpause⟩ := pauseForRestart_aside s sender (stripMinecraftFormatting message)
  have hreport := (hpause.trans (bookEarning_aside _ (stripMinecraftFormatting message))).trans
    (reportChat_aside _ sender (stripMinecraftFormatting message))
  simp only [handleChat]
  split
  · exact handleConnectionFailure_pulse (hreport.trans (emitConsole_aside _ _ _)).pulse _
  · exact kept_of_pulse hreport.pulse

theorem handleSpawn_pulse (s : Client) :
    s.handleSpawn.pulse = { s.pulse with status := .online, heartbeat := s.now, failure := none } := by
  have hset (t : Client) (message : String) :
      ((t.setStatus .online).emitConsole .system message).pulse = { t.pulse with status := .online } := by
    rw [(emitConsole_aside _ _ _).pulse, setStatus_pulse]
  have hcheck (t : Client) : { t.sendRestartCrouchCheck with
      pendingRestartCrouchCheck := false }.pulse = t.pulse :=
    (sendRestartCrouchCheck_aside t).pulse
  simp only [handleSpawn]
  split
  · rw [hcheck, hset]
    rfl
  · rw [hset]
    rfl

/-- An event of the current controller that brings no news of the bot. -/
theorem handleBotEvent_pulse {s : Client} {child : ℕ} (hc : s.subprocess = some child)
    {event : BotEvent} (hsign : ¬ s.SignOfLife (.line child event))
    (houtage : ¬ s.OutageReport (.line child event)) : s.pulse.Step (s.handleBotEvent event).pulse := by
  cases event with
  | msaCode | profile | login | behaviorLog | warning | unknown => exact .kept
  | spawn | heartbeat => exact absurd hc hsign
  | chat sender message => exact handleChat_pulse s sender message
  | sellMultipliers entries =>
      rw [handleBotEvent]
      split <;> exact .kept
  | controlStatus available error =>
      cases available with
      | none => exact .kept
      | some available =>
          cases available with
          | false => exact absurd hc houtage
          | true =>
              have hnone : s.lastControlFailureAt.isSome = false := by
                simpa [SignOfLife, hc] using hsign
              rw [handleBotEvent, handleControlStatus]
              simp only [hnone]
              exact .kept
  | disconnect reason =>
      exact handleConnectionFailure_pulse (emitConsole_aside s _ _).pulse (reason.getD _)
  | connectionFailed error | fatalError error =>
      exact handleConnectionFailure_pulse (emitConsole_aside s _ _).pulse error

theorem onHang_pulse (s : Client) (handle : ℕ) (kind : HangKind) :
    s.pulse.Step (s.onHang handle kind).pulse := by
  let fired : Client := { s with hangTimer := s.hangTimer.fire handle }
  have hended {t : Client} (ht : Aside fired t) (reason : String) :=
    handleConnectionFailure_pulse (s := fired) ht.pulse reason
  cases kind with
  | entry =>
      simp only [onHang]
      split
      · exact hended (emitConsole_aside fired _ _) _
      · exact kept_of_pulse (s := s) (t := fired) rfl
  | signIn => exact hended (.refl fired) _
  | world => exact hended (emitConsole_aside fired _ _) _

/-- Any timer but the watchdog. -/
theorem fire_pulse (s : Client) (hw : s.onlineWatchdog.Tracked) {timer : TimerName}
    (ht : timer ≠ .onlineWatchdog) (handle : ℕ) : s.pulse.Step (s.fire timer handle).pulse := by
  cases timer with
  | reconnect =>
      simp only [fire]
      split
      · let fired : Client := { s with reconnectTimer := (s.reconnectTimer.fire handle).forget }
        exact attemptConnect_pulse (s := s) (t := fired) rfl hw true
      · exact .kept
  | restart =>
      let fired : Client := { s with restartTimer := (s.restartTimer.fire handle).forget }
      simp only [fire, onRestart]
      split
      · split
        · exact kept_of_pulse (s := s) (t := fired) rfl
        · exact attemptConnect_pulse (s := s) (t := fired) rfl hw false
      · exact .kept
  | hang =>
      simp only [fire]
      split
      · exact onHang_pulse s handle _
      · exact .kept
  | onlineWatchdog => exact absurd rfl ht
  | restartCrouch =>
      simp only [fire]
      split
      · exact kept_of_pulse (onRestartCrouch_aside s handle _).pulse
      · exact .kept
  | periodicCrouch =>
      simp only [fire]
      split
      · exact kept_of_pulse (onPeriodicCrouch_aside s handle).pulse
      · exact .kept

theorem halt_pulse (s : Client) :
    s.pulse.Step (s.teardownSubprocess.setStatus .offline).pulse := by
  have hoff : ClientStatus.offline ≠ .online := by decide
  rw [setStatus_pulse, (teardownSubprocess_aside s).pulse]
  exact .ended hoff rfl rfl rfl (.inl rfl)

theorem disconnect_pulse (s : Client) : s.pulse.Step s.disconnect.pulse := by
  have hsync := (syncPeriodicCrouchChecks_aside { s with manuallyStopped := true }).pulse
  simp only [disconnect]
  generalize syncPeriodicCrouchChecks _ = t at hsync
  have hhalt := halt_pulse t.clearRestartTimer.clearReconnectTimer.clearHangTimer
  have hcleared : t.clearRestartTimer.clearReconnectTimer.clearHangTimer.pulse = s.pulse := hsync
  rwa [hcleared] at hhalt

theorem restart_pulse (s : Client) : s.pulse.Step s.restart.pulse := by
  have htold (t : Client) (message : String) (timer : Client → TimerVar ℤ) :
      { (t.emitConsole .system message) with
        restartTimer := timer (t.emitConsole .system message) }.pulse = t.pulse := rfl
  simp only [restart]
  rw [htold _ _ fun t => t.restartTimer.arm (t.now + MANUAL_RESTART_DELAY_MS)]
  exact halt_pulse { s with
    manuallyStopped := false, reconnectPolicy := s.reconnectPolicy.reset
    restartTimer := s.restartTimer.clear, reconnectTimer := s.reconnectTimer.clear
    hangTimer := s.hangTimer.clear }

theorem connect_pulse (s : Client) (hw : s.onlineWatchdog.Tracked) : s.pulse.Step s.connect.pulse := by
  unfold connect
  split
  · exact .kept
  split
  · exact .kept
  let begun : Client := { s with
    manuallyStopped := false, reconnectPolicy := s.reconnectPolicy.reset
    reconnectTimer := s.reconnectTimer.clear }
  exact attemptConnect_pulse (s := s) (t := begun) rfl hw false

theorem updateConfig_pulse (s : Client) (config : ClientRuntimeConfig) :
    (s.updateConfig config).pulse = s.pulse := by
  have hsync := (syncPeriodicCrouchChecks_aside { s with config := config }).pulse
  have hsend (t : Client) (message : BotMessage) : (t.sendToBot message).pulse = t.pulse := by
    unfold sendToBot
    split
    · split <;> rfl
    · rfl
  simp only [updateConfig]
  generalize syncPeriodicCrouchChecks _ = t at hsync
  split
  · rw [hsend, hsync]
    rfl
  · rw [hsync]
    rfl

/-- A step that is none of the watchdog's business. -/
theorem step_pulse {s : Client} (hok : s.lifecycle.Ok) {i : Input} (hclock : ∀ now, i ≠ .clock now)
    (hfire : ∀ handle, i ≠ .fire .onlineWatchdog handle) (hsign : ¬ s.SignOfLife i)
    (houtage : ¬ s.OutageReport i) : s.pulse.Step (s.step i).pulse := by
  let fresh : Client := { s with outbox := [] }
  change fresh.pulse.Step (fresh.handle i).pulse
  have hcurrent (child : ℕ) (handle : Client → Client)
      (h : fresh.subprocess = some child → fresh.pulse.Step (handle fresh).pulse) :
      fresh.pulse.Step (fresh.ifCurrent child handle).pulse := by
    unfold ifCurrent
    split
    · exact h ‹_›
    · exact .kept
  cases i with
  | connect => exact connect_pulse fresh hok.watchdog
  | disconnect => exact disconnect_pulse fresh
  | dispose =>
      exact disconnect_pulse { fresh with restartCrouchTimer := fresh.restartCrouchTimer.clear }
  | restart => exact restart_pulse fresh
  | updateConfig config => exact kept_of_pulse (updateConfig_pulse fresh config)
  | sendCommand command => exact kept_of_pulse (sendCommand_aside fresh command).pulse
  | cleanSpawner => exact kept_of_pulse (cleanSpawner_aside fresh).pulse
  | line child event => exact hcurrent child _ fun hc => handleBotEvent_pulse hc hsign houtage
  | close child code =>
      refine hcurrent child _ fun hc => ?_
      have hrun : fresh.manuallyStopped = false := (hok.endable (c := s.lifecycle) hc).stopped
      unfold onClose
      rw [if_neg (by simp [hrun])]
      exact handleConnectionFailure_pulse rfl _
  | processError child message | stdinError child message =>
      exact hcurrent child _ fun _ => handleConnectionFailure_pulse rfl _
  | fire timer handle => exact fire_pulse fresh hok.watchdog (fun h => hfire handle (h ▸ rfl)) handle
  | clock now => exact absurd rfl (hclock now)
  | spawning error => exact .kept
  | stdinClosed child => exact hcurrent child _ fun _ => .kept

/-- A sign of life. -/
theorem step_sign {s : Client} {i : Input} (h : s.SignOfLife i) :
    ∃ status, (s.step i).pulse =
      { s.pulse with status := status, heartbeat := s.now, failure := none } := by
  let fresh : Client := { s with outbox := [] }
  change ∃ status, (fresh.handle i).pulse =
    { fresh.pulse with status := status, heartbeat := fresh.now, failure := none }
  cases i with
  | line child event =>
      cases event with
      | heartbeat =>
          have hc : fresh.subprocess = some child := h
          exact ⟨fresh.status, by simp only [handle, ifCurrent, if_pos hc]; rfl⟩
      | spawn =>
          have hc : fresh.subprocess = some child := h
          refine ⟨.online, ?_⟩
          simp only [handle, ifCurrent, if_pos hc, handleBotEvent]
          exact handleSpawn_pulse fresh
      | controlStatus available error =>
          cases available with
          | none => exact h.elim
          | some available =>
              cases available with
              | false => exact h.elim
              | true =>
                  have hc : fresh.subprocess = some child := h.1
                  have hf : fresh.lastControlFailureAt.isSome := h.2
                  refine ⟨fresh.status, ?_⟩
                  simp only [handle, ifCurrent, if_pos hc, handleBotEvent, handleControlStatus,
                    if_pos hf]
                  rfl
      | _ => exact h.elim
  | _ => exact h.elim

/-- A reported outage. -/
theorem step_outage {s : Client} {i : Input} (h : s.OutageReport i) :
    (s.step i).pulse = { s.pulse with failure := some s.now } := by
  let fresh : Client := { s with outbox := [] }
  change (fresh.handle i).pulse = { fresh.pulse with failure := some fresh.now }
  cases i with
  | line child event =>
      cases event with
      | controlStatus available error =>
          cases available with
          | none => exact h.elim
          | some available =>
              cases available with
              | true => exact h.elim
              | false =>
                  have hc : fresh.subprocess = some child := h
                  simp only [handle, ifCurrent, if_pos hc, handleBotEvent, handleControlStatus]
                  split <;> rfl
      | _ => exact h.elim
  | _ => exact h.elim

/-- The watchdog looks: it waits for the next look, or ends the connection of a bot that was
silent for more than 45 seconds, no outage having been reported for 15. -/
theorem step_look {s : Client} (hok : s.lifecycle.Ok) (handle : ℕ) :
    (s.step (.fire .onlineWatchdog handle)).pulse = s.pulse ∨
      (s.step (.fire .onlineWatchdog handle)).pulse =
          { s.pulse with watchdog := s.onlineWatchdog.update handle fun _ =>
              s.now + ONLINE_WATCHDOG_INTERVAL_MS } ∧
        (s.status = .online → s.now ≤ s.lastHeartbeatAt + SUBPROCESS_ONLINE_SILENCE_MS ∨
          ∃ failure ∈ s.lastControlFailureAt, s.now < failure + CONTROL_OUTAGE_LEASE_MS) ∨
      s.pulse.Step (s.step (.fire .onlineWatchdog handle)).pulse ∧
        s.lastHeartbeatAt + SUBPROCESS_ONLINE_SILENCE_MS < s.now ∧
        ∀ failure ∈ s.lastControlFailureAt, failure + CONTROL_OUTAGE_LEASE_MS ≤ s.now := by
  let fresh : Client := { s with outbox := [] }
  let looked : Client := { fresh with
    onlineWatchdog := s.onlineWatchdog.update handle fun _ => s.now + ONLINE_WATCHDOG_INTERVAL_MS }
  simp only [step, Client.handle, fire]
  split
  case isFalse => exact .inl rfl
  rename_i hp
  have hopen : s.connectionEnded = false := by
    obtain ⟨due, hdue⟩ := Option.isSome_iff_exists.mp hp
    have hmem := TimerVar.mem_of_find? hdue
    obtain ⟨child, hc⟩ := hok.live_of_pending (.inr (List.ne_nil_of_mem hmem))
    exact (hok.endable hc).ended
  simp only [onWatchdog]
  split
  · rename_i hs
    exact .inr (.inl ⟨rfl, fun hs' => absurd hs' hs⟩)
  split
  · rename_i hs hf
    refine .inr (.inl ⟨rfl, fun _ => .inr ?_⟩)
    cases hfail : s.lastControlFailureAt with
    | none => simp [hfail] at hf
    | some failure =>
        have hrecent : s.now - failure < CONTROL_OUTAGE_LEASE_MS := by simpa [hfail] using hf
        exact ⟨failure, rfl, by omega⟩
  rename_i hf
  split
  · rename_i hsilent
    obtain ⟨status, hs, hp⟩ := handleConnectionFailure_pulse_ended (s := looked.emitConsole .warning
      "Bot appears frozen (no heartbeat); reconnecting…") hopen "Bot froze (no heartbeat)"
    refine .inr (.inr ⟨?_, by omega, fun failure hfailure => ?_⟩)
    · rw [hp]
      exact .ended hs rfl rfl rfl (.inl rfl)
    · have hlong : ¬ s.now - failure < CONTROL_OUTAGE_LEASE_MS := by
        simpa [Option.mem_def.mp hfailure] using hf
      omega
  · rename_i hsilent
    exact .inr (.inl ⟨rfl, fun _ => .inl (by omega)⟩)

/-- Everything a step can do to what the watchdog sees. -/
theorem step_cases {s : Client} (hok : s.lifecycle.Ok) (i : Input) :
    s.SignOfLife i ∧ (∃ status, (s.step i).pulse =
        { s.pulse with status := status, heartbeat := s.now, failure := none }) ∨
      s.OutageReport i ∧ (s.step i).pulse = { s.pulse with failure := some s.now } ∨
      (∃ handle, (s.step i).pulse =
          { s.pulse with watchdog := s.onlineWatchdog.update handle fun _ =>
              s.now + ONLINE_WATCHDOG_INTERVAL_MS }) ∧
        (s.status = .online → s.now ≤ s.lastHeartbeatAt + SUBPROCESS_ONLINE_SILENCE_MS ∨
          ∃ failure ∈ s.lastControlFailureAt, s.now < failure + CONTROL_OUTAGE_LEASE_MS) ∨
      (∃ now, i = .clock now ∧ (s.step i).pulse = { s.pulse with now := now }) ∨
      s.pulse.Step (s.step i).pulse := by
  by_cases hsign : s.SignOfLife i
  · exact .inl ⟨hsign, step_sign hsign⟩
  by_cases houtage : s.OutageReport i
  · exact .inr (.inl ⟨houtage, step_outage houtage⟩)
  by_cases hfire : ∃ handle, i = .fire .onlineWatchdog handle
  · obtain ⟨handle, rfl⟩ := hfire
    obtain hp | ⟨hp, hlook⟩ | ⟨hstep, -⟩ := step_look hok handle
    · exact .inr (.inr (.inr (.inr (kept_of_pulse hp))))
    · exact .inr (.inr (.inl ⟨⟨handle, hp⟩, hlook⟩))
    · exact .inr (.inr (.inr (.inr hstep)))
  by_cases hclock : ∃ now, i = .clock now
  · obtain ⟨now, rfl⟩ := hclock
    exact .inr (.inr (.inr (.inl ⟨now, rfl, rfl⟩)))
  · exact .inr (.inr (.inr (.inr (step_pulse hok (fun now hn => hclock ⟨now, hn⟩)
      (fun handle hh => hfire ⟨handle, hh⟩) hsign houtage))))

/-! ### Time -/

/-- Time does not run backwards, and not past a look of the watchdog that is due. -/
def Timely (s : Client) : Input → Prop
  | .clock now => s.now ≤ now ∧ ∀ p ∈ s.onlineWatchdog.pending, now ≤ p.2
  | _ => True

instance (s : Client) (i : Input) : Decidable (Timely s i) := by
  unfold Timely
  split <;> infer_instance

/-- The watchdog of a connection is due within its interval, and has no news of the future. -/
structure Pulse.Timed (p : Pulse) : Prop where
  heartbeat : p.heartbeat ≤ p.now
  failure : ∀ failure ∈ p.failure, failure ≤ p.now
  due : p.subprocess.isSome → ∃ handle due, p.watchdog.pending = [(handle, due)] ∧
    p.now ≤ due ∧ due ≤ p.now + ONLINE_WATCHDOG_INTERVAL_MS

theorem update_pending {κ : Type*} {t : TimerVar κ} {handle handle' : ℕ} {timer : κ}
    (h : t.pending = [(handle', timer)]) (f : κ → κ) :
    (t.update handle f).pending = [(handle', if handle' = handle then f timer else timer)] := by
  simp only [TimerVar.update, h, List.map_cons, List.map_nil]
  split <;> rfl

theorem mem_update {κ : Type*} {t : TimerVar κ} {handle : ℕ} {f : κ → κ} {p : ℕ × κ}
    (h : p ∈ (t.update handle f).pending) : p ∈ t.pending ∨ ∃ timer, p.2 = f timer := by
  obtain ⟨q, hq, rfl⟩ := List.mem_map.mp h
  split
  · exact .inr ⟨q.2, rfl⟩
  · exact .inl hq

theorem Pulse.Timed.step {p q : Pulse} (h : p.Timed) (hstep : p.Step q) : q.Timed := by
  cases hstep with
  | kept => exact h
  | ended hs hc hn hh hf =>
      refine ⟨by rw [hh, hn]; exact h.heartbeat, fun failure hfailure => ?_, by simp [hc]⟩
      obtain hf | hf := hf
      · rw [hn]
        exact h.failure failure (hf ▸ hfailure)
      · simp [hf] at hfailure
  | started hs hw hn hh hf =>
      obtain ⟨handle, hw⟩ := hw
      refine ⟨by omega, by simp [hf], fun _ => ⟨handle, _, hw, ?_, by omega⟩⟩
      rw [hn, ONLINE_WATCHDOG_INTERVAL_MS]
      omega

theorem Pulse.Timed.news {p q : Pulse} (h : p.Timed) (hc : q.subprocess = p.subprocess)
    (hw : q.watchdog = p.watchdog) (hn : q.now = p.now)
    (hh : q.heartbeat = p.heartbeat ∨ q.heartbeat = p.now)
    (hf : q.failure = p.failure ∨ q.failure = none ∨ q.failure = some p.now) : q.Timed := by
  have hold := h.heartbeat
  refine ⟨by omega, fun failure hfailure => ?_, by rw [hc, hw, hn]; exact h.due⟩
  obtain hf | hf | hf := hf
  · rw [hn]
    exact h.failure failure (hf ▸ hfailure)
  · simp [hf] at hfailure
  · obtain rfl : p.now = failure := by simpa [hf] using hfailure
    omega

theorem Pulse.Timed.look {p : Pulse} (h : p.Timed) (handle : ℕ) :
    { p with watchdog := p.watchdog.update handle fun _ =>
        p.now + ONLINE_WATCHDOG_INTERVAL_MS }.Timed := by
  refine ⟨h.heartbeat, h.failure, fun hc => ?_⟩
  obtain ⟨handle', due, hp, hdue, hsoon⟩ := h.due hc
  refine ⟨handle', _, update_pending hp _, ?_⟩
  simp only [ONLINE_WATCHDOG_INTERVAL_MS] at hsoon ⊢
  split <;> omega

theorem step_timed {s : Client} (hok : s.lifecycle.Ok) (h : s.pulse.Timed) {i : Input}
    (hi : s.Timely i) : (s.step i).pulse.Timed := by
  obtain ⟨-, status, hp⟩ | ⟨-, hp⟩ | ⟨⟨handle, hp⟩, -⟩ | ⟨now, rfl, hp⟩ | hstep := step_cases hok i
  · rw [hp]
    exact h.news rfl rfl rfl (.inr rfl) (.inr (.inl rfl))
  · rw [hp]
    exact h.news rfl rfl rfl (.inl rfl) (.inr (.inr rfl))
  · rw [hp]
    exact h.look handle
  · rw [hp]
    have hnow : s.pulse.now ≤ now := hi.1
    have hold (failure : ℤ) (hf : failure ∈ s.pulse.failure) : failure ≤ now :=
      Int.le_trans (h.failure failure hf) hnow
    refine ⟨Int.le_trans h.heartbeat hnow, hold, fun hc => ?_⟩
    obtain ⟨handle, due, hp, hdue, hsoon⟩ := h.due hc
    refine ⟨handle, due, hp, hi.2 _ (show (handle, due) ∈ s.pulse.watchdog.pending by simp [hp]), ?_⟩
    change due ≤ now + ONLINE_WATCHDOG_INTERVAL_MS
    omega
  · exact h.step hstep

/-- A clock that stands still or runs, and a connection that can end in one step only. -/
structure Watched (s : Client) : Prop where
  ok : s.lifecycle.Ok
  timed : s.pulse.Timed

theorem init_watched (config : ClientRuntimeConfig) : (init config).Watched where
  ok := init_lifecycle_ok config
  timed := ⟨Int.le_refl _, nofun, nofun⟩

theorem Watched.step {s : Client} (h : s.Watched) {i : Input} (hi : s.Timely i) :
    (s.step i).Watched where
  ok := h.ok.step (step_lifecycle s i)
  timed := step_timed h.ok h.timed hi

/-- The next look of the watchdog at an online bot. -/
theorem Watched.next_look {s : Client} (h : s.Watched) (hs : s.status = .online) :
    ∃ handle due, s.onlineWatchdog.pending = [(handle, due)] ∧ s.now ≤ due ∧
      due ≤ s.now + ONLINE_WATCHDOG_INTERVAL_MS :=
  h.timed.due ((connectionInvariant_of_ok h.ok).online hs)

theorem run_watched {s : Client} (h : s.Watched) {is : List Input} (hm : Meets step Timely s is) :
    (run step s is).Watched :=
  (along_of_preserved (P := Watched) (C := Timely) (fun _ _ hs hi => hs.step hi) h hm).last

/-! ### A silent bot -/

/-- What keeps a bot online that shows no sign of life. -/
theorem step_still {s : Client} (hok : s.lifecycle.Ok) {i : Input} (hsign : ¬ s.SignOfLife i)
    (hon : (s.step i).status = .online) :
    s.status = .online ∧ (s.step i).lastHeartbeatAt = s.lastHeartbeatAt ∧
      ((s.step i).lastControlFailureAt = s.lastControlFailureAt ∨ s.OutageReport i) ∧
      ((s.step i).onlineWatchdog = s.onlineWatchdog ∨
        (∃ handle, (s.step i).onlineWatchdog = s.onlineWatchdog.update handle fun _ =>
          s.now + ONLINE_WATCHDOG_INTERVAL_MS) ∧
        (s.now ≤ s.lastHeartbeatAt + SUBPROCESS_ONLINE_SILENCE_MS ∨
          ∃ failure ∈ s.lastControlFailureAt, s.now < failure + CONTROL_OUTAGE_LEASE_MS)) := by
  obtain ⟨hs, -⟩ | ⟨houtage, hp⟩ | ⟨⟨handle, hp⟩, hlook⟩ | ⟨now, rfl, hp⟩ | hstep := step_cases hok i
  · exact absurd hs hsign
  · have hs : s.status = .online := (congrArg Pulse.status hp).symm.trans hon
    exact ⟨hs, congrArg Pulse.heartbeat hp, .inr houtage, .inl (congrArg Pulse.watchdog hp)⟩
  · have hs : s.status = .online := (congrArg Pulse.status hp).symm.trans hon
    exact ⟨hs, congrArg Pulse.heartbeat hp, .inl (congrArg Pulse.failure hp),
      .inr ⟨⟨handle, congrArg Pulse.watchdog hp⟩, hlook hs⟩⟩
  · exact ⟨hon, rfl, .inl rfl, .inl rfl⟩
  · generalize hq : (s.step i).pulse = q at hstep
    have hon' : q.status = .online := hq ▸ hon
    cases hstep with
    | kept =>
        have hs : s.status = .online := (congrArg Pulse.status hq).symm.trans hon
        exact ⟨hs, congrArg Pulse.heartbeat hq, .inl (congrArg Pulse.failure hq),
          .inl (congrArg Pulse.watchdog hq)⟩
    | ended hs | started hs => exact absurd hon' hs

/-- If the bot is online, it was last heard of by `t`. -/
def SilentSince (t : ℤ) (s : Client) : Prop := s.status = .online → s.lastHeartbeatAt ≤ t

theorem SilentSince.step {t : ℤ} {s : Client} (h : SilentSince t s) (hok : s.lifecycle.Ok)
    {i : Input} (hsign : ¬ s.SignOfLife i) : SilentSince t (s.step i) := by
  intro hon
  obtain ⟨hs, hh, -⟩ := step_still hok hsign hon
  rw [hh]
  exact h hs

/-- If the bot is online, no outage was reported after `t`, and the watchdog looks by `due`. -/
def DueBy (t due : ℤ) (s : Client) : Prop :=
  s.status = .online →
    (∀ failure ∈ s.lastControlFailureAt, failure ≤ t) ∧ ∀ p ∈ s.onlineWatchdog.pending, p.2 ≤ due

theorem DueBy.step {t₀ t₁ due : ℤ} {s : Client} (h : DueBy t₁ due s) (hsilent : SilentSince t₀ s)
    (hok : s.lifecycle.Ok)
    (h₀ : t₀ + SUBPROCESS_ONLINE_SILENCE_MS + ONLINE_WATCHDOG_INTERVAL_MS ≤ due)
    (h₁ : t₁ + CONTROL_OUTAGE_LEASE_MS + ONLINE_WATCHDOG_INTERVAL_MS ≤ due)
    {i : Input} (hsign : ¬ s.SignOfLife i) (houtage : ¬ s.OutageReport i) :
    DueBy t₁ due (s.step i) := by
  intro hon
  obtain ⟨hs, -, hf, hw⟩ := step_still hok hsign hon
  obtain ⟨hfailure, hdue⟩ := h hs
  have hheard := hsilent hs
  rw [hf.resolve_right houtage]
  refine ⟨hfailure, ?_⟩
  obtain hw | ⟨⟨handle, hw⟩, hlook⟩ := hw
  · rwa [hw]
  · intro p hp
    rw [hw] at hp
    obtain hp | ⟨-, hp⟩ := mem_update hp
    · exact hdue p hp
    · obtain hlook | ⟨failure, hmem, hlook⟩ := hlook
      · omega
      · have hle := hfailure failure hmem
        omega

/-- A bot that stays silent is not online once the watchdog had time to see it. -/
theorem not_online_of_silent {s : Client} (h : s.Watched) {silent quiet : List Input}
    (ht : Meets step Timely s (silent ++ quiet))
    (hsign : Meets step (fun s i => ¬ s.SignOfLife i) s (silent ++ quiet))
    (houtage : Meets step (fun s i => ¬ s.OutageReport i) (run step s silent) quiet)
    (h₀ : s.now + SUBPROCESS_ONLINE_SILENCE_MS + ONLINE_WATCHDOG_INTERVAL_MS <
      (run step s (silent ++ quiet)).now)
    (h₁ : (run step s silent).now + CONTROL_OUTAGE_LEASE_MS + ONLINE_WATCHDOG_INTERVAL_MS <
      (run step s (silent ++ quiet)).now) :
    (run step s (silent ++ quiet)).status ≠ .online := by
  rw [meets_append] at ht hsign
  rw [run_append] at h₀ h₁ ⊢
  have hquiet := run_watched h ht.1
  have hlast := run_watched hquiet ht.2
  have hheard : SilentSince s.now (run step s silent) :=
    (along_of_preserved (P := fun u => u.Watched ∧ SilentSince s.now u)
      (C := fun u i => u.Timely i ∧ ¬ u.SignOfLife i)
      (fun u i hu hi => ⟨hu.1.step hi.1, hu.2.step hu.1.ok hi.2⟩)
      ⟨h, fun _ => h.timed.heartbeat⟩ (ht.1.and hsign.1)).last.2
  generalize run step s silent = u at *
  have hdue : DueBy u.now ((run step u quiet).now - 1) u := by
    intro hs
    obtain ⟨handle, due, hp, -, hsoon⟩ := hquiet.next_look hs
    refine ⟨hquiet.timed.failure, fun p hmem => ?_⟩
    obtain rfl : p = (handle, due) := by simpa [hp] using hmem
    simp only [CONTROL_OUTAGE_LEASE_MS] at h₁
    change due ≤ _
    omega
  have hend : (run step u quiet).Watched ∧ SilentSince s.now (run step u quiet) ∧
      DueBy u.now ((run step u quiet).now - 1) (run step u quiet) := (along_of_preserved
    (P := fun v => v.Watched ∧ SilentSince s.now v ∧ DueBy u.now ((run step u quiet).now - 1) v)
    (C := fun v i => v.Timely i ∧ ¬ v.SignOfLife i ∧ ¬ v.OutageReport i)
    (fun v i hv hi => ⟨hv.1.step hi.1, hv.2.1.step hv.1.ok hi.2.1,
      hv.2.2.step hv.2.1 hv.1.ok (by omega) (by omega) hi.2.1 hi.2.2⟩)
    ⟨hquiet, hheard, hdue⟩ (ht.2.and (hsign.2.and houtage))).last
  intro hs
  obtain ⟨handle, due, hp, hnow, -⟩ := hend.1.next_look hs
  have hlate : due ≤ (run step u quiet).now - 1 := (hend.2.2 hs).2 (handle, due) (by simp [hp])
  omega

/-! ### A live bot -/

/-- What a step does to the news of the bot. -/
inductive Pulse.News (p q : Pulse) : Prop where
  | heard (hh : q.heartbeat = p.now)
  | ended (hh : q.heartbeat = p.heartbeat) (hc : q.subprocess = none)
  | kept (hh : q.heartbeat = p.heartbeat) (hc : q.subprocess = p.subprocess)
      (hf : q.failure = p.failure ∨ q.failure = some p.now)

theorem step_news {s : Client} (hok : s.lifecycle.Ok) {i : Input} (hi : s.Timely i) :
    s.now ≤ (s.step i).now ∧ s.pulse.News (s.step i).pulse := by
  change s.pulse.now ≤ (s.step i).pulse.now ∧ _
  obtain ⟨-, status, hp⟩ | ⟨-, hp⟩ | ⟨⟨handle, hp⟩, -⟩ | ⟨now, rfl, hp⟩ | hstep := step_cases hok i
  · rw [hp]
    exact ⟨Int.le_refl _, .heard rfl⟩
  · rw [hp]
    exact ⟨Int.le_refl _, .kept rfl rfl (.inr rfl)⟩
  · rw [hp]
    exact ⟨Int.le_refl _, .kept rfl rfl (.inl rfl)⟩
  · rw [hp]
    exact ⟨hi.1, .kept rfl rfl (.inl rfl)⟩
  · generalize (s.step i).pulse = q at hstep
    cases hstep with
    | kept => exact ⟨Int.le_refl _, .kept rfl rfl (.inl rfl)⟩
    | ended hs hc hn hh hf => exact ⟨by omega, .ended hh hc⟩
    | started hs hw hn hh hf => exact ⟨by omega, .heard hh⟩

/-- Every connection was heard of at `t` or later. -/
def HeardSince (t : ℤ) (s : Client) : Prop := t ≤ s.now ∧ t ≤ s.lastHeartbeatAt

theorem HeardSince.step {t : ℤ} {s : Client} (h : HeardSince t s) (hok : s.lifecycle.Ok)
    {i : Input} (hi : s.Timely i) : HeardSince t (s.step i) := by
  obtain ⟨hnow, hnews⟩ := step_news hok hi
  refine ⟨Int.le_trans h.1 hnow, ?_⟩
  change t ≤ (s.step i).pulse.heartbeat
  cases hnews with
  | heard hh =>
      rw [hh]
      exact h.1
  | ended hh | kept hh =>
      rw [hh]
      exact h.2

/-- A connection that stands was heard of or had an outage reported at `t` or later. -/
def ExcusedSince (t : ℤ) (s : Client) : Prop :=
  t ≤ s.now ∧ (s.subprocess = none ∨ t ≤ s.lastHeartbeatAt ∨
    ∃ failure ∈ s.lastControlFailureAt, t ≤ failure)

theorem ExcusedSince.step {t : ℤ} {s : Client} (h : ExcusedSince t s) (hok : s.lifecycle.Ok)
    {i : Input} (hi : s.Timely i) : ExcusedSince t (s.step i) := by
  obtain ⟨hnow, hnews⟩ := step_news hok hi
  refine ⟨Int.le_trans h.1 hnow, ?_⟩
  change (s.step i).pulse.subprocess = none ∨ t ≤ (s.step i).pulse.heartbeat ∨
    ∃ failure ∈ (s.step i).pulse.failure, t ≤ failure
  cases hnews with
  | heard hh =>
      rw [hh]
      exact .inr (.inl h.1)
  | ended hh hc => exact .inl hc
  | kept hh hc hf =>
      rw [hh, hc]
      obtain hf | hf := hf
      · rw [hf]
        exact h.2
      · rw [hf]
        exact .inr (.inr ⟨s.now, rfl, h.1⟩)

/-- The step ends the connection that stands. -/
def CutsConnection (s : Client) (i : Input) : Prop :=
  s.subprocess.isSome ∧ (s.step i).subprocess = none

/-- The watchdog ends a connection only after 45 seconds of silence, 15 after an outage. -/
theorem silent_of_cut {s : Client} (hok : s.lifecycle.Ok) {handle : ℕ}
    (h : s.CutsConnection (.fire .onlineWatchdog handle)) :
    s.lastHeartbeatAt + SUBPROCESS_ONLINE_SILENCE_MS < s.now ∧
      ∀ failure ∈ s.lastControlFailureAt, failure + CONTROL_OUTAGE_LEASE_MS ≤ s.now := by
  obtain ⟨hstands, hends⟩ := h
  obtain hp | ⟨hp, -⟩ | ⟨-, hlong⟩ := step_look hok handle
  · have hc : (s.step (.fire .onlineWatchdog handle)).subprocess = s.subprocess :=
      congrArg Pulse.subprocess hp
    simp [← hc, hends] at hstands
  · have hc : (s.step (.fire .onlineWatchdog handle)).subprocess = s.subprocess :=
      congrArg Pulse.subprocess hp
    simp [← hc, hends] at hstands
  · exact hlong

/-- No connection is ended within 45 seconds of a sign of life. -/
theorem not_cut_of_sign {s : Client} (h : s.Watched) {i : Input} (hsign : s.SignOfLife i)
    {after : List Input} (ht : Meets step Timely s (i :: after)) {handle : ℕ}
    (hend : (run step s (i :: after)).CutsConnection (.fire .onlineWatchdog handle)) :
    s.now + SUBPROCESS_ONLINE_SILENCE_MS < (run step s (i :: after)).now := by
  rw [run_cons] at hend ⊢
  obtain ⟨status, hp⟩ := step_sign hsign
  have hnow : (s.step i).now = s.now := congrArg Pulse.now hp
  have hheard : (s.step i).lastHeartbeatAt = s.now := congrArg Pulse.heartbeat hp
  have hlast : (run step (s.step i) after).Watched ∧
      HeardSince s.now (run step (s.step i) after) := (along_of_preserved
    (P := fun u => u.Watched ∧ HeardSince s.now u) (C := Timely)
    (fun u i hu hi => ⟨hu.1.step hi, hu.2.step hu.1.ok hi⟩)
    ⟨h.step ht.1, by omega, by omega⟩ ht.2).last
  have hlong := (silent_of_cut hlast.1.ok hend).1
  have hsince := hlast.2.2
  omega

/-- No connection is ended within 15 seconds of a reported outage. -/
theorem not_cut_of_outage {s : Client} (h : s.Watched) {i : Input} (houtage : s.OutageReport i)
    {after : List Input} (ht : Meets step Timely s (i :: after)) {handle : ℕ}
    (hend : (run step s (i :: after)).CutsConnection (.fire .onlineWatchdog handle)) :
    s.now + CONTROL_OUTAGE_LEASE_MS ≤ (run step s (i :: after)).now := by
  rw [run_cons] at hend ⊢
  have hp := step_outage houtage
  have hnow : (s.step i).now = s.now := congrArg Pulse.now hp
  have hfailure : (s.step i).lastControlFailureAt = some s.now := congrArg Pulse.failure hp
  have hlast : (run step (s.step i) after).Watched ∧
      ExcusedSince s.now (run step (s.step i) after) := (along_of_preserved
    (P := fun u => u.Watched ∧ ExcusedSince s.now u) (C := Timely)
    (fun u i hu hi => ⟨hu.1.step hi, hu.2.step hu.1.ok hi⟩)
    ⟨h.step ht.1, by omega, .inr (.inr ⟨s.now, hfailure, Int.le_refl _⟩)⟩ ht.2).last
  obtain ⟨hsilent, hlease⟩ := silent_of_cut hlast.1.ok hend
  simp only [SUBPROCESS_ONLINE_SILENCE_MS, CONTROL_OUTAGE_LEASE_MS] at hsilent hlease ⊢
  obtain hnone | hsince | ⟨failure, hmem, hsince⟩ := hlast.2.2
  · simp [CutsConnection, hnone] at hend
  · omega
  · have hle := hlease failure hmem
    omega

/-! ### The watchdog -/

/-- A bot from which neither a heartbeat, a spawn nor a recovered control service is heard
after `before` is not online once 60 seconds passed, and 30 since the last outage that was
reported; and no connection is cut within 45 seconds of a sign of life or 15 of an outage. -/
theorem watchdog (config : ClientRuntimeConfig) :
    (∀ before silent quiet, Meets step Timely (init config) (before ++ (silent ++ quiet)) →
      Meets step (fun s i => ¬ s.SignOfLife i) (run step (init config) before) (silent ++ quiet) →
      Meets step (fun s i => ¬ s.OutageReport i)
        (run step (init config) (before ++ silent)) quiet →
      (run step (init config) before).now + 60_000 <
        (run step (init config) (before ++ (silent ++ quiet))).now →
      (run step (init config) (before ++ silent)).now + 30_000 <
        (run step (init config) (before ++ (silent ++ quiet))).now →
      (run step (init config) (before ++ (silent ++ quiet))).status ≠ .online) ∧
    ∀ before i after handle, Meets step Timely (init config) (before ++ i :: after) →
      (run step (init config) (before ++ i :: after)).CutsConnection
        (.fire .onlineWatchdog handle) →
      ((run step (init config) before).SignOfLife i →
        (run step (init config) before).now + 45_000 <
          (run step (init config) (before ++ i :: after)).now) ∧
      ((run step (init config) before).OutageReport i →
        (run step (init config) before).now + 15_000 ≤
          (run step (init config) (before ++ i :: after)).now) := by
  constructor
  · intro before silent quiet ht hsign houtage h₀ h₁
    rw [meets_append] at ht
    have hw := run_watched (init_watched config) ht.1
    rw [run_append] at h₀ h₁ houtage ⊢
    rw [run_append] at h₁
    refine not_online_of_silent hw ht.2 hsign houtage ?_ ?_
    · simp only [SUBPROCESS_ONLINE_SILENCE_MS, ONLINE_WATCHDOG_INTERVAL_MS]
      omega
    · simp only [CONTROL_OUTAGE_LEASE_MS, ONLINE_WATCHDOG_INTERVAL_MS]
      omega
  · intro before i after handle ht hcut
    rw [meets_append] at ht
    have hw := run_watched (init_watched config) ht.1
    rw [run_append] at hcut ⊢
    exact ⟨fun hsign => not_cut_of_sign hw hsign ht.2 hcut,
      fun houtage => not_cut_of_outage hw houtage ht.2 hcut⟩

/-- Three looks, and the time of the fourth. -/
def looks : List Input :=
  [.clock 15_000, .fire .onlineWatchdog 0, .clock 30_000, .fire .onlineWatchdog 0,
    .clock 45_000, .fire .onlineWatchdog 0, .clock 60_000]

/-- A bot that froze as it spawned, and as an outage was reported, is cut at the fourth look. -/
theorem watchdog_frozen :
    (run step (init sampleConfig) ([.connect, .line 0 .spawn] ++
        ([.line 0 (.controlStatus (some false) "")] ++
          (looks ++ [.fire .onlineWatchdog 0, .clock 60_001])))).status ≠ .online ∧
      (run step (init sampleConfig) [.connect]).now + 45_000 <
        (run step (init sampleConfig) ([.connect] ++ .line 0 .spawn :: looks)).now ∧
      (run step (init sampleConfig) [.connect, .line 0 .spawn]).now + 15_000 ≤
        (run step (init sampleConfig) ([.connect, .line 0 .spawn] ++
          .line 0 (.controlStatus (some false) "") :: looks)).now := by
  have hoff := (watchdog sampleConfig).1 [.connect, .line 0 .spawn]
    [.line 0 (.controlStatus (some false) "")] (looks ++ [.fire .onlineWatchdog 0, .clock 60_001])
    (by decide) (by decide) (by decide) (by decide) (by decide)
  have hsign := ((watchdog sampleConfig).2 [.connect] (.line 0 .spawn) looks 0 (by decide)
    ⟨by decide, by decide⟩).1 (by decide)
  have houtage := ((watchdog sampleConfig).2 [.connect, .line 0 .spawn]
    (.line 0 (.controlStatus (some false) "")) looks 0 (by decide)
    ⟨by decide, by decide⟩).2 (by decide)
  exact ⟨hoff, hsign, houtage⟩

/-! ### Flapping -/

/-- How long the control service counted as available: no outage within 15 seconds. -/
structure Availability where
  outage : Option ℤ := none
  total : ℤ := 0

def Availability.note (a : Availability) (s : Client) : Input → Availability
  | .line _ (.controlStatus (some false) _) => { a with outage := some s.now }
  | .clock now =>
      let since := match a.outage with
        | none => s.now
        | some outage => max s.now (min now (outage + CONTROL_OUTAGE_LEASE_MS))
      { a with total := a.total + (now - since) }
  | _ => a

def availability : Client → Availability → List Input → Availability
  | _, a, [] => a
  | s, a, i :: is => availability (s.step i) (a.note s i) is

/-- The bot says that it runs, or that it entered a world. -/
def isAliveEvent : Input → Bool
  | .line _ .heartbeat | .line _ .spawn => true
  | _ => false

/-- Thirty seconds, an outage and its end. -/
def flap (since : ℤ) : List Input :=
  [.clock (since + 15_000), .fire .onlineWatchdog 0, .clock (since + 30_000),
    .fire .onlineWatchdog 0, .line 0 (.controlStatus (some false) ""),
    .line 0 (.controlStatus (some true) "")]

/-- A control service that comes back every 30 seconds keeps a silent bot online. -/
theorem flapping_keeps_online :
    ¬ ∀ (config : ClientRuntimeConfig) (before silent : List Input),
      Meets step Timely (init config) (before ++ silent) →
      (∀ i ∈ silent, isAliveEvent i = false) →
      (availability (init config) {} before).total + 45_000 + 15_000 <
        (availability (init config) {} (before ++ silent)).total →
      ¬ Along step (fun s => s.status = .online) (run step (init config) before) silent := by
  intro h
  exact h sampleConfig [.connect, .line 0 .spawn]
    (flap 0 ++ (flap 30_000 ++ (flap 60_000 ++ (flap 90_000 ++ flap 120_000))))
    (by decide) (by decide) (by decide) (by decide)

end AfkClient.Client

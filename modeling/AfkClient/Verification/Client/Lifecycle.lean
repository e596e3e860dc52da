import AfkClient.Library.Run
import AfkClient.Model.Lifecycle
import AfkClient.Verification.Client.Aside

/-! The client follows the life cycle of a supervised connection, whatever calls,
events and timers come in whatever order. -/

namespace AfkClient.Client

open Lifecycle

/-- The life-cycle part of a client's state. -/
def lifecycle (s : Client) : Lifecycle where
  subprocess := s.subprocess
  status := s.status
  reconnectTimer := s.reconnectTimer
  restartTimer := s.restartTimer
  hangTimer := s.hangTimer
  onlineWatchdog := s.onlineWatchdog
  manuallyStopped := s.manuallyStopped
  connectionEnded := s.connectionEnded
  created := s.created
  attempts := s.attempts
  consulted := s.consulted

theorem Aside.lifecycle {s t : Client} (h : Aside s t) : t.lifecycle = s.lifecycle := by
  rw [h.eq]
  rfl

/-! ### Effects of the handlers -/

theorem setStatus_lifecycle (s : Client) (status : ClientStatus) :
    (s.setStatus status).lifecycle = { s.lifecycle with status := status } :=
  (setStatus_aside s status).lifecycle

theorem teardownSubprocess_lifecycle (s : Client) :
    s.teardownSubprocess.lifecycle = s.lifecycle.teardown :=
  (teardownSubprocess_aside s).lifecycle

theorem endConnection_lifecycle (s : Client) (reason : String) :
    (s.endConnection reason).lifecycle =
      { s.lifecycle with connectionEnded := true, hangTimer := s.hangTimer.clear }.teardown :=
  (teardownSubprocess_aside _).lifecycle

theorem endConnection_manuallyStopped (s : Client) (reason : String) :
    (s.endConnection reason).manuallyStopped = s.manuallyStopped :=
  (teardownSubprocess_aside _).manuallyStopped

theorem endConnection_config (s : Client) (reason : String) :
    (s.endConnection reason).config = s.config :=
  (teardownSubprocess_aside _).config

theorem scheduleReconnect_lifecycle (s : Client) (reason : String) (stableForMs : ℤ) :
    (s.scheduleReconnect reason stableForMs).lifecycle =
      { s.lifecycle with
        consulted := s.attempts :: s.consulted, status := .reconnecting
        reconnectTimer :=
          s.reconnectTimer.arm (s.now + (s.reconnectPolicy.delay reason stableForMs).1) } :=
  (scheduleReconnect_aside s reason stableForMs).lifecycle

/-- Ending an attempt has the life cycle's effect; the policy only decides when. -/
theorem handleConnectionFailure_lifecycle (s : Client) (reason : String) :
    ∃ due, (s.handleConnectionFailure reason).lifecycle =
      s.lifecycle.endAttempt s.config.autoReconnect due := by
  by_cases he : s.connectionEnded
  · exact ⟨0, by simp [handleConnectionFailure, endAttempt, lifecycle, he]⟩
  have hlife := endConnection_lifecycle s reason
  have hstop := endConnection_manuallyStopped s reason
  have hconf := endConnection_config s reason
  simp only [handleConnectionFailure, if_neg he, hstop, hconf]
  generalize s.endConnection reason = t at hlife
  by_cases hm : s.manuallyStopped
  · refine ⟨0, ?_⟩
    rw [if_pos hm, setStatus_lifecycle, hlife]
    simp [endAttempt, lifecycle, he, hm, Lifecycle.teardown]
  by_cases ha : s.config.autoReconnect
  · let stableForMs := (s.connectedSince.map (s.now - ·)).getD 0
    refine ⟨t.now + (t.reconnectPolicy.delay reason stableForMs).1, ?_⟩
    rw [if_neg hm, if_neg (by simpa using ha), scheduleReconnect_lifecycle, hlife]
    have hattempts : t.attempts = s.attempts := congrArg Lifecycle.attempts hlife
    have hconsulted : t.consulted = s.consulted := congrArg Lifecycle.consulted hlife
    have htimer : t.reconnectTimer = s.reconnectTimer := congrArg Lifecycle.reconnectTimer hlife
    rw [hattempts, hconsulted, htimer]
    simp [endAttempt, lifecycle, he, hm, ha, Lifecycle.teardown, stableForMs]
  · refine ⟨0, ?_⟩
    rw [if_neg hm, if_pos (by simpa using ha), setStatus_lifecycle,
      (emitConsole_aside t _ _).lifecycle, hlife]
    simp [endAttempt, lifecycle, he, hm, ha, Lifecycle.teardown]

theorem beginAttempt_lifecycle (s : Client) (reconnecting : Bool) :
    (s.beginAttempt reconnecting).lifecycle =
      { s.lifecycle with
        connectionEnded := false, attempts := s.attempts + 1
        status := if reconnecting then .reconnecting else .connecting } :=
  setStatus_lifecycle _ _

theorem startController_lifecycle (s : Client) :
    s.startController.lifecycle =
      { s.lifecycle with
        subprocess := some s.created, created := s.created + 1
        onlineWatchdog := s.onlineWatchdog.clear.arm (s.now + ONLINE_WATCHDOG_INTERVAL_MS)
        hangTimer := s.hangTimer.arm
          ⟨.entry, some s.created, s.now + SUBPROCESS_HANG_TIMEOUT_MS⟩ } := by
  simp [startController, createSoulFireController, emit, startOnlineWatchdog, clearOnlineWatchdog,
    sendToBot, armHangTimer, lifecycle]

theorem attemptConnect_begins (s : Client) (reconnecting : Bool) :
    s.lifecycle.Begins (if reconnecting then .reconnecting else .connecting)
      (s.attemptConnect reconnecting).lifecycle := by
  have hbegin := beginAttempt_lifecycle s reconnecting
  simp only [attemptConnect]
  generalize s.beginAttempt reconnecting = t at hbegin
  cases t.spawnError with
  | some message =>
      obtain ⟨due, hdue⟩ := handleConnectionFailure_lifecycle t message
      simp only [hdue, hbegin]
      exact .failed _ due
  | none =>
      have hstart := startController_lifecycle t
      have hcreated : t.created = s.created := congrArg Lifecycle.created hbegin
      have hhang : t.hangTimer = s.hangTimer := congrArg Lifecycle.hangTimer hbegin
      have hwatchdog : t.onlineWatchdog = s.onlineWatchdog :=
        congrArg Lifecycle.onlineWatchdog hbegin
      simp only [hstart, hbegin, hcreated, hhang, hwatchdog]
      exact .created _ _

/-! ### Calls -/

theorem updateConfig_lifecycle (s : Client) (config : ClientRuntimeConfig) :
    (s.updateConfig config).lifecycle = s.lifecycle := by
  have hsync := (syncPeriodicCrouchChecks_aside { s with config := config }).lifecycle
  simp only [updateConfig]
  generalize syncPeriodicCrouchChecks _ = t at hsync
  have hsend (message : BotMessage) : (t.sendToBot message).lifecycle = t.lifecycle := by
    unfold sendToBot
    split
    · split <;> rfl
    · rfl
  split
  · rw [hsend, hsync]
    rfl
  · rw [hsync]
    rfl

theorem disconnect_lifecycle (s : Client) :
    s.disconnect.lifecycle = { s.lifecycle.halt with manuallyStopped := true } := by
  have hsync := (syncPeriodicCrouchChecks_aside { s with manuallyStopped := true }).lifecycle
  simp only [disconnect]
  generalize syncPeriodicCrouchChecks _ = t at hsync
  rw [setStatus_lifecycle, teardownSubprocess_lifecycle]
  simp only [clearRestartTimer, clearReconnectTimer, clearHangTimer, lifecycle,
    Lifecycle.teardown, halt] at hsync ⊢
  simp_all

theorem restart_lifecycle (s : Client) :
    ∃ due, s.restart.lifecycle = { s.lifecycle.halt with
      manuallyStopped := false, restartTimer := s.restartTimer.clear.arm due } := by
  refine ⟨s.restart.now + MANUAL_RESTART_DELAY_MS, ?_⟩
  have hhalt (t : Client) : (t.teardownSubprocess.setStatus .offline).lifecycle =
      { t.lifecycle.teardown with status := .offline } := by
    rw [setStatus_lifecycle, teardownSubprocess_lifecycle]
  have htold (t : Client) (message : String) : Aside t (t.emitConsole .system message) :=
    emitConsole_aside t _ _
  simp only [restart]
  generalize hcleared : clearHangTimer _ = t
  specialize hhalt t
  generalize (t.teardownSubprocess.setStatus .offline) = u at hhalt ⊢
  generalize hv : u.emitConsole .system _ = v
  have hlife : v.lifecycle = u.lifecycle := by
    rw [← hv]
    exact (htold _ _).lifecycle
  subst hcleared
  rw [hhalt] at hlife
  simp only [clearRestartTimer, clearReconnectTimer, clearHangTimer, lifecycle,
    Lifecycle.teardown, halt] at hlife ⊢
  simp_all

theorem connect_lifecycle (s : Client) : Step .start s.lifecycle s.connect.lifecycle := by
  unfold connect
  split
  · exact .skip _ _ (by decide)
  rename_i hs
  split
  · exact .skip _ _ (by decide)
  rename_i ht
  have hbegins := attemptConnect_begins { s with
    manuallyStopped := false, reconnectPolicy := s.reconnectPolicy.reset }.clearReconnectTimer false
  refine .connect _ _ ?_ ?_ hbegins
  · simpa [lifecycle, or_iff_not_imp_left] using hs
  · simpa [lifecycle] using ht

/-! ### Events of the current controller -/

theorem handleConnectionFailure_step {s t : Client} {child : ℕ} (hc : s.subprocess = some child)
    (ht : t.lifecycle = s.lifecycle) (reason : String) :
    Step .other s.lifecycle (t.handleConnectionFailure reason).lifecycle := by
  obtain ⟨due, hdue⟩ := handleConnectionFailure_lifecycle t reason
  rw [hdue, ht]
  exact .ended _ hc _ due

/-- A step that leaves the life cycle alone. -/
theorem skip_step {s t : Client} (h : t.lifecycle = s.lifecycle) :
    Step .other s.lifecycle t.lifecycle := by
  rw [h]
  exact .skip _ _ (by decide)

theorem rearm_step {s t : Client} {child : ℕ} (hc : s.subprocess = some child) (kind : HangKind)
    (delay : ℤ) (h : Aside { (s.clearHangTimer.armHangTimer kind delay) with
      msaSignIn := t.msaSignIn, authenticated := t.authenticated } t) :
    Step .other s.lifecycle t.lifecycle := by
  have hlife : t.lifecycle = { s.lifecycle with
      hangTimer := s.hangTimer.clear.arm ⟨kind, some child, s.now + delay⟩ } := by
    rw [h.lifecycle]
    simp [armHangTimer, clearHangTimer, lifecycle, hc]
  rw [hlife]
  exact .rearmed _ hc kind _

theorem handleSpawn_lifecycle (s : Client) :
    s.handleSpawn.lifecycle =
      { s.lifecycle with hangTimer := s.hangTimer.clear, status := .online } := by
  have hset (t : Client) (message : String) :
      ((t.setStatus .online).emitConsole .system message).lifecycle =
        { t.lifecycle with status := .online } := by
    rw [(emitConsole_aside _ _ _).lifecycle, setStatus_lifecycle]
  have hcheck (t : Client) : { t.sendRestartCrouchCheck with
      pendingRestartCrouchCheck := false }.lifecycle = t.lifecycle :=
    (sendRestartCrouchCheck_aside t).lifecycle
  simp only [handleSpawn]
  split
  · rw [hcheck, hset]
    rfl
  · rw [hset]
    rfl

theorem handleControlStatus_lifecycle (s : Client) (available : Option Bool) (error : String) :
    (s.handleControlStatus available error).lifecycle = s.lifecycle := by
  unfold handleControlStatus
  cases available with
  | none => rfl
  | some available =>
      cases available with
      | false =>
          dsimp only
          split <;> rfl
      | true =>
          dsimp only
          split <;> rfl

theorem handleChat_step {s : Client} {child : ℕ} (hc : s.subprocess = some child)
    (sender : Option String) (message : String) :
    Step .other s.lifecycle (s.handleChat sender message).lifecycle := by
  obtain ⟨restartAt, hpause⟩ := pauseForRestart_aside s sender (stripMinecraftFormatting message)
  have hreport := (hpause.trans (bookEarning_aside _ (stripMinecraftFormatting message))).trans
    (reportChat_aside _ sender (stripMinecraftFormatting message))
  have hlife := hreport.lifecycle
  simp only [handleChat]
  split
  · refine handleConnectionFailure_step hc ?_ _
    rw [(emitConsole_aside _ _ _).lifecycle, hlife]
    rfl
  · exact skip_step hlife

theorem handleBotEvent_step {s : Client} {child : ℕ} (hc : s.subprocess = some child)
    (event : BotEvent) : Step .other s.lifecycle (s.handleBotEvent event).lifecycle := by
  cases event with
  | msaCode uri code expiresIn => exact rearm_step hc .signIn _ ⟨rfl, rfl, rfl⟩
  | profile username uuid => exact rearm_step hc .world _ ⟨rfl, rfl, rfl⟩
  | login | behaviorLog | heartbeat | warning | unknown => exact skip_step rfl
  | spawn =>
      rw [handleBotEvent, handleSpawn_lifecycle]
      exact .spawned _ hc
  | chat sender message => exact handleChat_step hc sender message
  | sellMultipliers entries =>
      refine skip_step ?_
      rw [handleBotEvent]
      split <;> rfl
  | controlStatus available error => exact skip_step (handleControlStatus_lifecycle s available error)
  | disconnect reason =>
      exact handleConnectionFailure_step hc (emitConsole_aside s _ _).lifecycle (reason.getD _)
  | connectionFailed error | fatalError error =>
      exact handleConnectionFailure_step hc (emitConsole_aside s _ _).lifecycle error

theorem ifCurrent_step {s : Client} {child : ℕ} {handle : Client → Client}
    (h : s.subprocess = some child → Step .other s.lifecycle (handle s).lifecycle) :
    Step .other s.lifecycle (s.ifCurrent child handle).lifecycle := by
  unfold ifCurrent
  split
  · exact h ‹_›
  · exact skip_step rfl

theorem onClose_step {s : Client} {child : ℕ} (hc : s.subprocess = some child) (code : Option ℤ) :
    Step .other s.lifecycle (s.onClose code).lifecycle := by
  unfold onClose
  split
  · rw [teardownSubprocess_lifecycle]
    exact .closedAfterStop _ hc ‹_›
  · exact handleConnectionFailure_step hc rfl _

/-! ### Timers -/

theorem onReconnect_step {s : Client} {handle : ℕ} {due : ℤ}
    (h : s.reconnectTimer.find? handle = some due) :
    Step .other s.lifecycle (s.onReconnect handle).lifecycle := by
  have hbegins := attemptConnect_begins
    { s with reconnectTimer := (s.reconnectTimer.fire handle).forget } true
  exact .reconnectFired _ _ h hbegins

theorem onRestart_step {s : Client} {handle : ℕ} {due : ℤ}
    (h : s.restartTimer.find? handle = some due) :
    Step .other s.lifecycle (s.onRestart handle).lifecycle := by
  simp only [onRestart]
  split
  · exact .restartIgnored _ h ‹_›
  · rename_i hm
    have hbegins := attemptConnect_begins
      { s with restartTimer := (s.restartTimer.fire handle).forget } false
    exact .restartFired _ _ h (by simpa [lifecycle] using hm) hbegins

theorem onHang_step {s : Client} {handle : ℕ} {timer : HangTimer}
    (h : s.hangTimer.find? handle = some timer) :
    Step .other s.lifecycle (s.onHang handle timer.kind).lifecycle := by
  let fired := { s with hangTimer := s.hangTimer.fire handle }
  have hended {t : Client} (ht : Aside fired t) (reason : String) :
      Step .other s.lifecycle (t.handleConnectionFailure reason).lifecycle := by
    obtain ⟨due, hdue⟩ := handleConnectionFailure_lifecycle t reason
    rw [hdue, ht.lifecycle]
    exact .hangEnded _ h _ due
  unfold onHang
  dsimp only
  split
  · split
    · exact hended (emitConsole_aside fired _ _) _
    · exact .hangIgnored _ h
  · exact hended (.refl fired) _
  · exact hended (emitConsole_aside fired _ _) _

theorem onWatchdog_step {s : Client} {handle : ℕ} {due : ℤ}
    (h : s.onlineWatchdog.find? handle = some due) :
    Step .other s.lifecycle (s.onWatchdog handle).lifecycle := by
  unfold onWatchdog
  dsimp only
  split
  · exact .watchdogIgnored _ _ _
  split
  · exact .watchdogIgnored _ _ _
  split
  · obtain ⟨reconnectDue, hended⟩ := handleConnectionFailure_lifecycle
      ({ s with onlineWatchdog := s.onlineWatchdog.update handle fun _ =>
          s.now + ONLINE_WATCHDOG_INTERVAL_MS }.emitConsole .warning
        "Bot appears frozen (no heartbeat); reconnecting…") "Bot froze (no heartbeat)"
    rw [hended]
    exact .watchdogEnded _ h (s.now + ONLINE_WATCHDOG_INTERVAL_MS) _ reconnectDue
  · exact .watchdogIgnored _ _ _

theorem fire_step (s : Client) (timer : TimerName) (handle : ℕ) :
    Step .other s.lifecycle (s.fire timer handle).lifecycle := by
  have hskip : Step .other s.lifecycle s.lifecycle := skip_step rfl
  cases timer with
  | reconnect =>
      simp only [fire]
      split
      · rename_i h
        obtain ⟨due, hdue⟩ := Option.isSome_iff_exists.mp h
        exact onReconnect_step hdue
      · exact hskip
  | restart =>
      simp only [fire]
      split
      · rename_i h
        obtain ⟨due, hdue⟩ := Option.isSome_iff_exists.mp h
        exact onRestart_step hdue
      · exact hskip
  | hang =>
      simp only [fire]
      split
      · exact onHang_step ‹_›
      · exact hskip
  | onlineWatchdog =>
      simp only [fire]
      split
      · rename_i h
        obtain ⟨due, hdue⟩ := Option.isSome_iff_exists.mp h
        exact onWatchdog_step hdue
      · exact hskip
  | restartCrouch =>
      simp only [fire]
      split
      · exact skip_step (onRestartCrouch_aside s handle _).lifecycle
      · exact hskip
  | periodicCrouch =>
      simp only [fire]
      split
      · exact skip_step (onPeriodicCrouch_aside s handle).lifecycle
      · exact hskip

/-! ### Runs -/

/-- What causes the step of an input. -/
def Input.cause : Input → Cause
  | .connect | .restart => .start
  | .disconnect | .dispose => .stop
  | _ => .other

/-- Every input moves the client along its life cycle. -/
theorem step_lifecycle (s : Client) (i : Input) :
    Step i.cause s.lifecycle (s.step i).lifecycle := by
  let fresh : Client := { s with outbox := [] }
  change Step i.cause fresh.lifecycle (fresh.handle i).lifecycle
  cases i with
  | connect => exact connect_lifecycle fresh
  | disconnect =>
      rw [handle, disconnect_lifecycle]
      exact .disconnect _
  | restart =>
      obtain ⟨due, hdue⟩ := restart_lifecycle fresh
      rw [handle, hdue]
      exact .restart _ due
  | dispose =>
      rw [handle, dispose, disconnect_lifecycle]
      exact .disconnect _
  | updateConfig config => exact skip_step (updateConfig_lifecycle fresh config)
  | sendCommand command => exact skip_step (sendCommand_aside fresh command).lifecycle
  | cleanSpawner => exact skip_step (cleanSpawner_aside fresh).lifecycle
  | line child event => exact ifCurrent_step fun hc => handleBotEvent_step hc event
  | close child code => exact ifCurrent_step fun hc => onClose_step hc code
  | processError child message | stdinError child message =>
      exact ifCurrent_step fun hc => handleConnectionFailure_step hc rfl _
  | fire timer handle => exact fire_step fresh timer handle
  | clock now | spawning error => exact skip_step rfl
  | stdinClosed child => exact ifCurrent_step fun _ => skip_step rfl

theorem init_lifecycle_ok (config : ClientRuntimeConfig) : (init config).lifecycle.Ok where
  reconnect := TimerVar.tracked_of_pending_nil rfl
  restart := TimerVar.tracked_of_pending_nil rfl
  hang := TimerVar.tracked_of_pending_nil rfl
  watchdog := TimerVar.tracked_of_pending_nil rfl
  phase := .idle ⟨rfl, rfl, rfl⟩ (.inl rfl) rfl rfl
  consulted_nodup := List.nodup_nil
  consulted_le := by simp [lifecycle, init]
  consulted_lt := by simp [lifecycle, init]

/-- Controllers, pending reconnects and pending restarts. -/
def connections (s : Client) : ℕ :=
  (if s.subprocess.isSome then 1 else 0) + s.reconnectTimer.pending.length
    + s.restartTimer.pending.length

/-- What holds of a client's connection in every state. -/
structure ConnectionInvariant (s : Client) : Prop where
  connections_le : s.connections ≤ 1
  online : s.status = .online → s.subprocess.isSome
  connecting : s.status = .connecting → s.subprocess.isSome
  idle : s.status = .offline ∨ s.status = .error →
    s.subprocess = none ∧ s.reconnectTimer.pending = []
  hang : ∀ p ∈ s.hangTimer.pending, s.subprocess.isSome ∧ p.2.armedBy = s.subprocess
  consulted_nodup : s.consulted.Nodup

theorem connectionInvariant_of_ok {s : Client} (h : s.lifecycle.Ok) : s.ConnectionInvariant := by
  have hreconnect : s.reconnectTimer.pending.length ≤ 1 := h.reconnect.length
  have hrestart : s.restartTimer.pending.length ≤ 1 := h.restart.length
  have hnodup := h.consulted_nodup
  cases h.phase with
  | idle hq hs hr ht =>
      have hsub := hq.subprocess
      have hhang := hq.hang
      simp only [lifecycle] at hsub hhang hs hr ht
      constructor <;> simp_all [connections, lifecycle]
      all_goals rcases hs with hs | hs <;> simp [hs]
  | restarting hq hs hm hr =>
      have hsub := hq.subprocess
      have hhang := hq.hang
      simp only [lifecycle] at hsub hhang hs hr
      constructor <;> simp_all [connections, lifecycle]
  | retrying hq hs hm ht =>
      have hsub := hq.subprocess
      have hhang := hq.hang
      simp only [lifecycle] at hsub hhang hs ht
      constructor <;> simp_all [connections, lifecycle]
  | live child hc hm he hs hr ht ha =>
      simp only [lifecycle] at hc hs hr ht ha
      have hbusy : ¬(s.status = .offline ∨ s.status = .error) := by
        rcases hs with hs | hs | hs <;> simp [hs]
      exact {
        connections_le := by simp [connections, hc, hr, ht]
        online := fun _ => by simp [hc]
        connecting := fun _ => by simp [hc]
        idle := fun hidle => absurd hidle hbusy
        hang := fun p hp => ⟨by simp [hc], (ha p hp).trans hc.symm⟩
        consulted_nodup := hnodup }

/-- A client that was stopped stays offline without a controller until it is started. -/
theorem stopped_along {s : Client} (h : s.lifecycle.Stopped) (hok : s.lifecycle.Ok)
    {inputs : List Input} (hidle : ∀ i ∈ inputs, i.cause ≠ .start) :
    Along step (fun t => t.status = .offline ∧ t.subprocess = none ∧ t.created = s.created)
      s inputs := by
  induction inputs generalizing s with
  | nil => exact ⟨h.status, h.quiet.subprocess, rfl⟩
  | cons i inputs ih =>
      have hstep := step_lifecycle s i
      obtain ⟨hstopped, hcreated⟩ := h.step hok hstep (hidle i (by simp))
      have hrest := ih hstopped (hok.step hstep) fun j hj => hidle j (by simp [hj])
      rw [show (s.step i).created = s.created from hcreated] at hrest
      exact ⟨⟨h.status, h.quiet.subprocess, rfl⟩, hrest⟩

/-- In every state of every run the connection invariant holds, and a stop lasts until
the next start. -/
theorem connection_safe (config : ClientRuntimeConfig) (inputs : List Input) :
    Along step ConnectionInvariant (init config) inputs ∧
      ∀ stop later, (stop = .disconnect ∨ stop = .dispose) →
        (∀ i ∈ later, i ≠ .connect ∧ i ≠ .restart) →
        let s := run step (init config) (inputs ++ [stop])
        Along step (fun t => t.status = .offline ∧ t.subprocess = none ∧ t.created = s.created)
          s later := by
  have hok : Along step (·.lifecycle.Ok) (init config) inputs :=
    along_of_invariant (P := fun s : Client => s.lifecycle.Ok)
      (fun s i h => h.step (step_lifecycle s i)) (init_lifecycle_ok config) inputs
  refine ⟨hok.mono fun s => connectionInvariant_of_ok, ?_⟩
  intro stop later hstop hlater s
  have hbefore := hok.last
  have hs : s = (run step (init config) inputs).step stop := by simp [s]
  have hcause : stop.cause = .stop := by rcases hstop with rfl | rfl <;> rfl
  have hstep := step_lifecycle (run step (init config) inputs) stop
  rw [hcause, ← hs] at hstep
  refine stopped_along (hbefore.stopped hstep) (hbefore.step hstep) ?_
  intro i hi
  obtain ⟨hconnect, hrestart⟩ := hlater i hi
  cases i <;> simp_all [Input.cause]

/-- An account for concrete runs. -/
def sampleConfig : ClientRuntimeConfig := { id := "a", name := "a", serverHost := "h" }

theorem connection_safe_disconnect :
    let s := run step (init sampleConfig) [.connect, .line 0 .spawn, .disconnect]
    Along step (fun t => t.status = .offline ∧ t.subprocess = none ∧ t.created = s.created) s
      [.line 0 (.disconnect none), .fire .reconnect 0, .fire .hang 0] :=
  (connection_safe sampleConfig [.connect, .line 0 .spawn]).2 .disconnect _ (.inl rfl) (by decide)

end AfkClient.Client

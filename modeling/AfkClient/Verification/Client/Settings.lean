import AfkClient.Verification.Client.Lifecycle

/-! What a bot knows of its account's settings. An edit reaches an online bot at once;
one made while the bot connects is not pushed, and the bot's first line is older. -/

namespace AfkClient.Client

open Lifecycle

/-- The part of a client's state that decides what its bot was told. -/
structure Briefing where
  config : ClientRuntimeConfig
  subprocess : Option ℕ
  status : ClientStatus
  told : Option BehaviorSettings
  startedWith : Option BehaviorSettings
  writable : Bool

def briefing (s : Client) : Briefing where
  config := s.config
  subprocess := s.subprocess
  status := s.status
  told := told s.stdin
  startedWith := startedWith s.stdin
  writable := s.stdinWritable

/-- What a step other than an edit and a spawn can do to a briefing. -/
inductive Briefing.Step (b : Briefing) : Briefing → Prop where
  | kept : Step b b
  | ended {status : ClientStatus} (h : status ≠ .online) :
      Step b { b with subprocess := none, status := status }
  | started (child : ℕ) {status : ClientStatus} (h : status ≠ .online) :
      Step b { b with
        subprocess := some child, status := status, writable := true
        told := some b.config.behaviorSettings, startedWith := some b.config.behaviorSettings }

theorem Aside.briefing {s t : Client} (h : Aside s t) : t.briefing = s.briefing := by
  have htold := h.told.1
  have hstarted := h.told.2
  rw [h.eq]
  simp [Client.briefing, htold, hstarted]

/-! ### Effects of the handlers -/

theorem setStatus_briefing (s : Client) (status : ClientStatus) :
    (s.setStatus status).briefing = { s.briefing with status := status } :=
  (setStatus_aside s status).briefing

theorem endConnection_briefing (s : Client) (reason : String) :
    (s.endConnection reason).briefing = { s.briefing with subprocess := none } :=
  (teardownSubprocess_aside _).briefing

theorem scheduleReconnect_briefing (s : Client) (reason : String) (stableForMs : ℤ) :
    (s.scheduleReconnect reason stableForMs).briefing =
      { s.briefing with status := .reconnecting } :=
  (scheduleReconnect_aside s reason stableForMs).briefing

theorem handleConnectionFailure_ended {s : Client} (he : s.connectionEnded = false)
    (reason : String) : ∃ status ≠ ClientStatus.online,
      (s.handleConnectionFailure reason).briefing =
        { s.briefing with subprocess := none, status := status } := by
  have hend := endConnection_briefing s reason
  simp only [handleConnectionFailure, he]
  generalize s.endConnection reason = t at hend
  rw [if_neg (by simp)]
  split
  · exact ⟨.offline, by decide, by rw [setStatus_briefing, hend]⟩
  split
  · refine ⟨.error, by decide, ?_⟩
    rw [setStatus_briefing, (emitConsole_aside _ _ _).briefing, hend]
  · exact ⟨.reconnecting, by decide, by rw [scheduleReconnect_briefing, hend]⟩

theorem handleConnectionFailure_briefing (s : Client) (reason : String) :
    s.briefing.Step (s.handleConnectionFailure reason).briefing := by
  by_cases he : s.connectionEnded
  · rw [handleConnectionFailure, if_pos he]
    exact .kept
  · obtain ⟨status, hs, hb⟩ := handleConnectionFailure_ended (by simpa using he) reason
    rw [hb]
    exact .ended hs

theorem startController_briefing (s : Client) :
    s.startController.briefing =
      { s.briefing with
        subprocess := some s.created, writable := true
        told := some s.config.behaviorSettings
        startedWith := some s.config.behaviorSettings } := by
  simp [startController, createSoulFireController, emit, startOnlineWatchdog, clearOnlineWatchdog,
    sendToBot, armHangTimer, briefing, told, startedWith, settingsOf, initialSettingsOf,
    initialConfig]

theorem attemptConnect_briefing (s : Client) (reconnecting : Bool) :
    s.briefing.Step (s.attemptConnect reconnecting).briefing := by
  have hbegin : (s.beginAttempt reconnecting).briefing =
      { s.briefing with status := if reconnecting then .reconnecting else .connecting } :=
    setStatus_briefing _ _
  have hopen : (s.beginAttempt reconnecting).connectionEnded = false :=
    congrArg Lifecycle.connectionEnded (beginAttempt_lifecycle s reconnecting)
  have hoff : (if reconnecting then ClientStatus.reconnecting else .connecting) ≠ .online := by
    cases reconnecting <;> decide
  simp only [attemptConnect]
  generalize s.beginAttempt reconnecting = t at hbegin hopen
  cases t.spawnError with
  | some message =>
      obtain ⟨status, hs, hb⟩ := handleConnectionFailure_ended hopen message
      simp only [hb, hbegin]
      exact .ended hs
  | none =>
      have hconfig : t.config = s.config := congrArg Briefing.config hbegin
      simp only [startController_briefing, hbegin, hconfig]
      exact .started _ hoff

/-! ### Steps -/

theorem kept_of_eq {s t : Client} (h : t.briefing = s.briefing) : s.briefing.Step t.briefing := by
  rw [h]
  exact .kept

theorem handleConnectionFailure_of_eq {s t : Client} (h : t.briefing = s.briefing)
    (reason : String) : s.briefing.Step (t.handleConnectionFailure reason).briefing := by
  rw [← h]
  exact handleConnectionFailure_briefing t reason

theorem attemptConnect_of_eq {s t : Client} (h : t.briefing = s.briefing) (reconnecting : Bool) :
    s.briefing.Step (t.attemptConnect reconnecting).briefing := by
  rw [← h]
  exact attemptConnect_briefing t reconnecting

theorem handleChat_briefing (s : Client) (sender : Option String) (message : String) :
    s.briefing.Step (s.handleChat sender message).briefing := by
  obtain ⟨restartAt, hpause⟩ := pauseForRestart_aside s sender (stripMinecraftFormatting message)
  have hreport := (hpause.trans (bookEarning_aside _ (stripMinecraftFormatting message))).trans
    (reportChat_aside _ sender (stripMinecraftFormatting message))
  simp only [handleChat]
  split
  · exact handleConnectionFailure_of_eq (hreport.trans (emitConsole_aside _ _ _)).briefing _
  · exact kept_of_eq hreport.briefing

theorem handleSpawn_briefing (s : Client) :
    s.handleSpawn.briefing = { s.briefing with status := .online } := by
  have hset (t : Client) (message : String) :
      ((t.setStatus .online).emitConsole .system message).briefing =
        { t.briefing with status := .online } := by
    rw [(emitConsole_aside _ _ _).briefing, setStatus_briefing]
  have hcheck (t : Client) : { t.sendRestartCrouchCheck with
      pendingRestartCrouchCheck := false }.briefing = t.briefing :=
    (sendRestartCrouchCheck_aside t).briefing
  simp only [handleSpawn]
  split
  · rw [hcheck, hset]
    rfl
  · rw [hset]
    rfl

theorem handleBotEvent_briefing (s : Client) {event : BotEvent} (hspawn : event ≠ .spawn) :
    s.briefing.Step (s.handleBotEvent event).briefing := by
  cases event with
  | msaCode | profile | login | behaviorLog | heartbeat | warning | unknown => exact .kept
  | spawn => exact absurd rfl hspawn
  | chat sender message => exact handleChat_briefing s sender message
  | sellMultipliers entries =>
      rw [handleBotEvent]
      split <;> exact .kept
  | controlStatus available error =>
      have hkept : (s.handleControlStatus available error).briefing = s.briefing := by
        unfold handleControlStatus
        split
        · dsimp only
          split <;> rfl
        · split <;> rfl
        · rfl
      rw [handleBotEvent, hkept]
      exact .kept
  | disconnect reason =>
      exact handleConnectionFailure_of_eq (emitConsole_aside s _ _).briefing (reason.getD _)
  | connectionFailed error | fatalError error =>
      exact handleConnectionFailure_of_eq (emitConsole_aside s _ _).briefing error

theorem onHang_briefing (s : Client) (handle : ℕ) (kind : HangKind) :
    s.briefing.Step (s.onHang handle kind).briefing := by
  let fired : Client := { s with hangTimer := s.hangTimer.fire handle }
  have hended {t : Client} (ht : Aside fired t) (reason : String) :=
    handleConnectionFailure_of_eq (s := fired) ht.briefing reason
  cases kind with
  | entry =>
      simp only [onHang]
      split
      · exact hended (emitConsole_aside fired _ _) _
      · exact kept_of_eq (s := s) (t := fired) rfl
  | signIn => exact hended (.refl fired) _
  | world => exact hended (emitConsole_aside fired _ _) _

theorem onWatchdog_briefing (s : Client) (handle : ℕ) :
    s.briefing.Step (s.onWatchdog handle).briefing := by
  let fired : Client := { s with
    onlineWatchdog := s.onlineWatchdog.update handle fun _ => s.now + ONLINE_WATCHDOG_INTERVAL_MS }
  have hkept : s.briefing.Step fired.briefing := .kept
  unfold onWatchdog
  dsimp only
  split
  · exact hkept
  split
  · exact hkept
  split
  · exact handleConnectionFailure_of_eq (s := fired) (emitConsole_aside fired _ _).briefing _
  · exact hkept

theorem fire_briefing (s : Client) (timer : TimerName) (handle : ℕ) :
    s.briefing.Step (s.fire timer handle).briefing := by
  cases timer with
  | reconnect =>
      simp only [fire]
      split
      · let fired : Client := { s with reconnectTimer := (s.reconnectTimer.fire handle).forget }
        exact attemptConnect_of_eq (s := s) (t := fired) rfl true
      · exact .kept
  | restart =>
      let fired : Client := { s with restartTimer := (s.restartTimer.fire handle).forget }
      simp only [fire, onRestart]
      split
      · split
        · exact kept_of_eq (s := s) (t := fired) rfl
        · exact attemptConnect_of_eq (s := s) (t := fired) rfl false
      · exact .kept
  | hang =>
      simp only [fire]
      split
      · exact onHang_briefing s handle _
      · exact .kept
  | onlineWatchdog =>
      simp only [fire]
      split
      · exact onWatchdog_briefing s handle
      · exact .kept
  | restartCrouch =>
      simp only [fire]
      split
      · exact kept_of_eq (onRestartCrouch_aside s handle _).briefing
      · exact .kept
  | periodicCrouch =>
      simp only [fire]
      split
      · exact kept_of_eq (onPeriodicCrouch_aside s handle).briefing
      · exact .kept

theorem halt_briefing (s : Client) :
    (s.teardownSubprocess.setStatus .offline).briefing =
      { s.briefing with subprocess := none, status := .offline } := by
  rw [setStatus_briefing, (teardownSubprocess_aside s).briefing]
  rfl

theorem disconnect_briefing (s : Client) :
    s.disconnect.briefing = { s.briefing with subprocess := none, status := .offline } := by
  have hsync := (syncPeriodicCrouchChecks_aside { s with manuallyStopped := true }).briefing
  simp only [disconnect]
  generalize syncPeriodicCrouchChecks _ = t at hsync
  rw [halt_briefing]
  simp only [clearRestartTimer, clearReconnectTimer, clearHangTimer, briefing] at hsync ⊢
  simp_all

theorem restart_briefing (s : Client) :
    s.restart.briefing = { s.briefing with subprocess := none, status := .offline } := by
  have htold (t : Client) (message : String) (timer : Client → TimerVar ℤ) :
      { (t.emitConsole .system message) with
        restartTimer := timer (t.emitConsole .system message) }.briefing = t.briefing := rfl
  simp only [restart]
  refine (htold _ _ fun t => t.restartTimer.arm (t.now + MANUAL_RESTART_DELAY_MS)).trans ?_
  rw [halt_briefing]
  rfl

theorem connect_briefing (s : Client) : s.briefing.Step s.connect.briefing := by
  unfold connect
  split
  · exact .kept
  split
  · exact .kept
  let cleared : Client := { s with
    manuallyStopped := false, reconnectPolicy := s.reconnectPolicy.reset }.clearReconnectTimer
  exact attemptConnect_of_eq (s := s) (t := cleared) rfl false

theorem sendConfigure_briefing {s : Client} (hlive : s.subprocess.isSome) (hw : s.stdinWritable)
    (settings : BehaviorSettings) :
    (s.sendToBot (.configure settings)).briefing = { s.briefing with told := some settings } := by
  obtain ⟨child, hchild⟩ := Option.isSome_iff_exists.mp hlive
  rw [sendToBot, hchild]
  dsimp only
  rw [if_pos hw]
  simp only [briefing, emit, told, startedWith, hchild]
  exact congr rfl rfl

theorem updateConfig_briefing {s : Client} (config : ClientRuntimeConfig)
    (hw : s.stdinWritable) :
    (s.updateConfig config).briefing =
      { s.briefing with
        config := config
        told :=
          if s.subprocess.isSome ∧ s.status = .online then some config.behaviorSettings
          else told s.stdin } := by
  have hsync := syncPeriodicCrouchChecks_aside { s with config := config }
  have hbrief := hsync.briefing
  have hsub := hsync.subprocess
  have hstatus := hsync.status
  have hpipe := hsync.stdinWritable
  simp only [updateConfig]
  generalize syncPeriodicCrouchChecks _ = t at hbrief hsub hstatus hpipe
  simp only at hsub hstatus hpipe
  by_cases hpush : s.subprocess.isSome ∧ s.status = .online
  · have hlive : t.subprocess.isSome := hsub ▸ hpush.1
    rw [if_pos hpush, if_pos (by simpa [hsub, hstatus] using hpush),
      sendConfigure_briefing hlive (hpipe.trans hw), hbrief]
    rfl
  · rw [if_neg hpush, if_neg (by simpa [hsub, hstatus] using hpush), hbrief]
    rfl

/-- A step other than an edit and a spawn, every write succeeding. -/
theorem step_briefing {s : Client} (hok : s.lifecycle.Ok) {i : Input}
    (hedit : ∀ config, i ≠ .updateConfig config)
    (hspawn : ∀ child, i = .line child .spawn → s.subprocess ≠ some child)
    (hpipe : ∀ child, i ≠ .stdinClosed child) : s.briefing.Step (s.step i).briefing := by
  let fresh : Client := { s with outbox := [] }
  change fresh.briefing.Step (fresh.handle i).briefing
  have hcurrent (child : ℕ) (handle : Client → Client)
      (h : fresh.subprocess = some child → fresh.briefing.Step (handle fresh).briefing) :
      fresh.briefing.Step (fresh.ifCurrent child handle).briefing := by
    unfold ifCurrent
    split
    · exact h ‹_›
    · exact .kept
  cases i with
  | connect => exact connect_briefing fresh
  | disconnect =>
      rw [handle, disconnect_briefing]
      exact .ended (by decide)
  | restart =>
      rw [handle, restart_briefing]
      exact .ended (by decide)
  | dispose =>
      rw [handle, dispose, disconnect_briefing]
      exact .ended (by decide)
  | updateConfig config => exact absurd rfl (hedit config)
  | sendCommand command => exact kept_of_eq (sendCommand_aside fresh command).briefing
  | cleanSpawner => exact kept_of_eq (cleanSpawner_aside fresh).briefing
  | line child event =>
      refine hcurrent child _ fun hc => handleBotEvent_briefing fresh ?_
      rintro rfl
      exact hspawn child rfl hc
  | close child code =>
      refine hcurrent child _ fun hc => ?_
      have hrun : fresh.manuallyStopped = false := (hok.endable (c := s.lifecycle) hc).stopped
      unfold onClose
      rw [if_neg (by simp [hrun])]
      exact handleConnectionFailure_briefing fresh _
  | processError child message | stdinError child message =>
      exact hcurrent child _ fun _ => handleConnectionFailure_briefing fresh _
  | fire timer handle => exact fire_briefing fresh timer handle
  | clock now | spawning error => exact .kept
  | stdinClosed child => exact absurd rfl (hpipe child)

theorem step_updateConfig_config (s : Client) (config : ClientRuntimeConfig) :
    (s.step (.updateConfig config)).config = config := by
  have hsend (t : Client) (message : BotMessage) : (t.sendToBot message).config = t.config := by
    unfold sendToBot
    split
    · split <;> rfl
    · rfl
  have hsync := (syncPeriodicCrouchChecks_aside { s with outbox := [], config := config }).config
  simp only [step, handle, updateConfig]
  split
  · rw [hsend]
    exact hsync
  · exact hsync

theorem Briefing.Step.config {b b' : Briefing} (h : b.Step b') : b'.config = b.config := by
  cases h <;> rfl

/-- Only an edit changes the configuration. -/
theorem step_config (s : Client) {i : Input} (hedit : ∀ config, i ≠ .updateConfig config) :
    (s.step i).config = s.config := by
  let fresh : Client := { s with outbox := [] }
  change (fresh.handle i).config = fresh.config
  have hcurrent (child : ℕ) (handle : Client → Client) (h : (handle fresh).config = fresh.config) :
      (fresh.ifCurrent child handle).config = fresh.config := by
    unfold ifCurrent
    split
    · exact h
    · rfl
  cases i with
  | connect => exact (connect_briefing fresh).config
  | disconnect | dispose => exact congrArg Briefing.config (disconnect_briefing _)
  | restart => exact congrArg Briefing.config (restart_briefing fresh)
  | updateConfig config => exact absurd rfl (hedit config)
  | sendCommand command => exact (sendCommand_aside fresh command).config
  | cleanSpawner => exact (cleanSpawner_aside fresh).config
  | line child event =>
      refine hcurrent child _ ?_
      by_cases hspawn : event = .spawn
      · subst hspawn
        exact congrArg Briefing.config (handleSpawn_briefing fresh)
      · exact (handleBotEvent_briefing fresh hspawn).config
  | close child code =>
      refine hcurrent child _ ?_
      unfold onClose
      split
      · exact (teardownSubprocess_aside fresh).config
      · exact (handleConnectionFailure_briefing fresh _).config
  | processError child message | stdinError child message =>
      exact hcurrent child _ (handleConnectionFailure_briefing fresh _).config
  | fire timer handle => exact (fire_briefing fresh timer handle).config
  | clock now | spawning error => rfl
  | stdinClosed child => exact hcurrent child _ rfl

/-! ### Edits reach the bot -/

/-- An online bot was last told the current settings. -/
def Informed (s : Client) : Prop :=
  s.status = .online → told s.stdin = some s.config.behaviorSettings

instance : DecidablePred Informed := fun s =>
  inferInstanceAs (Decidable (s.status = .online → told s.stdin = some s.config.behaviorSettings))

/-- The input is the spawn of a bot that was started with settings edited since. -/
def SpawnsOutdated (s : Client) (i : Input) : Prop :=
  ∃ child, i = .line child .spawn ∧ s.subprocess = some child ∧ s.status ≠ .online ∧
    startedWith s.stdin ≠ some s.config.behaviorSettings

/-- Between its first line and its spawn a bot is told no settings. -/
structure Briefed (s : Client) : Prop where
  ok : s.lifecycle.Ok
  writable : s.stdinWritable
  told : s.subprocess.isSome → s.status ≠ .online → told s.stdin = startedWith s.stdin

theorem Briefed.of_step {s t : Client} (h : s.Briefed) (hok : t.lifecycle.Ok)
    (hstep : s.briefing.Step t.briefing) : t.Briefed := by
  obtain ⟨-, hwritable, htold⟩ := h
  generalize hb : t.briefing = b at hstep
  cases hstep with
  | kept =>
      simp only [briefing, Briefing.mk.injEq] at hb
      exact ⟨hok, by simp_all, by simp_all⟩
  | ended hs =>
      simp only [briefing, Briefing.mk.injEq] at hb
      exact ⟨hok, by simp_all, by simp_all⟩
  | started child hs =>
      simp only [briefing, Briefing.mk.injEq] at hb
      exact ⟨hok, by simp_all, by simp_all⟩

theorem Informed.of_step {s t : Client} (h : s.Informed) (hstep : s.briefing.Step t.briefing) :
    t.Informed := by
  intro honline
  generalize hb : t.briefing = b at hstep
  cases hstep with
  | kept =>
      simp only [briefing, Briefing.mk.injEq] at hb
      obtain ⟨hconfig, -, hstatus, htold, -⟩ := hb
      rw [htold, hconfig, h (hstatus ▸ honline)]
  | ended hs | started child hs =>
      simp only [briefing, Briefing.mk.injEq] at hb
      exact absurd (hb.2.2.1.symm.trans honline) hs

theorem spawn_briefing {s : Client} {child : ℕ} (hc : s.subprocess = some child) :
    (s.step (.line child .spawn)).briefing = { s.briefing with status := .online } := by
  simp only [step, handle, ifCurrent]
  rw [if_pos hc, handleBotEvent, handleSpawn_briefing]
  rfl

/-- Only a spawn can leave an informed bot uninformed, and does so by its first line. -/
theorem step_informed {s : Client} (h : s.Briefed) {i : Input}
    (hpipe : ∀ child, i ≠ .stdinClosed child) :
    (s.step i).Briefed ∧ (s.Informed → ((s.step i).Informed ↔ ¬s.SpawnsOutdated i)) := by
  have hok : (s.step i).lifecycle.Ok := h.ok.step (step_lifecycle s i)
  by_cases hedit : ∃ config, i = .updateConfig config
  · obtain ⟨config, rfl⟩ := hedit
    have hbrief := updateConfig_briefing (s := { s with outbox := [] }) config h.writable
    change (s.step (.updateConfig config)).briefing = _ at hbrief
    have hnot : ¬s.SpawnsOutdated (.updateConfig config) := by simp [SpawnsOutdated]
    simp only [briefing, Briefing.mk.injEq] at hbrief
    obtain ⟨hconfig, hsub, hstatus, htold, hstarted, hwritable⟩ := hbrief
    refine ⟨⟨hok, hwritable.trans h.writable, ?_⟩, fun _ => iff_of_true ?_ hnot⟩
    · intro hlive hoff
      rw [hsub] at hlive
      rw [hstatus] at hoff
      rw [htold, if_neg (by simp [hoff]), hstarted, h.told hlive hoff]
    · intro honline
      rw [hstatus] at honline
      rw [htold, hconfig, if_pos ⟨(connectionInvariant_of_ok h.ok).online honline, honline⟩]
  by_cases hspawn : ∃ child, i = .line child .spawn ∧ s.subprocess = some child
  · obtain ⟨child, rfl, hchild⟩ := hspawn
    have hbrief := spawn_briefing hchild
    simp only [briefing, Briefing.mk.injEq] at hbrief
    obtain ⟨hconfig, hsub, hstatus, htold, hstarted, hwritable⟩ := hbrief
    refine ⟨⟨hok, hwritable.trans h.writable, fun _ hoff => absurd hstatus hoff⟩, fun hi => ?_⟩
    simp only [Informed, SpawnsOutdated, hstatus, htold, hconfig]
    by_cases honline : s.status = .online
    · simp [honline, hi honline]
    · have hsame := h.told (by simp [hchild]) honline
      simp [honline, hsame, hchild]
  · have hstep : s.briefing.Step (s.step i).briefing := by
      refine step_briefing h.ok (fun config hc => hedit ⟨config, hc⟩) ?_ hpipe
      intro child hc hchild
      exact hspawn ⟨child, hc, hchild⟩
    have hnot : ¬s.SpawnsOutdated i := by
      rintro ⟨child, hc, hchild, -⟩
      exact hspawn ⟨child, hc, hchild⟩
    exact ⟨h.of_step hok hstep, fun hi => iff_of_true (hi.of_step hstep) hnot⟩

/-- While every write succeeds, an online bot knows the current settings in every state
of a run exactly when no bot spawns that was started with settings edited since. -/
theorem informed_iff (config : ClientRuntimeConfig) (inputs : List Input)
    (hpipe : ∀ child, .stdinClosed child ∉ inputs) :
    Along step Informed (init config) inputs ↔
      Meets step (fun s i => ¬s.SpawnsOutdated i) (init config) inputs := by
  have hopen : Meets step (fun _ i => ∀ child, i ≠ .stdinClosed child) (init config) inputs := by
    apply meets_of_forall_mem
    rintro i hi child rfl
    exact hpipe child hi
  have hbriefed : (init config).Briefed :=
    ⟨init_lifecycle_ok config, rfl, fun hlive => by simp [init] at hlive⟩
  exact along_iff_meets (fun s i h hi => (step_informed h hi).1)
    (fun s i h hinf hi => (step_informed h hi).2 hinf) hbriefed (by simp [Informed, init]) hopen

/-- An edit made while the bot connects never reaches it. -/
theorem not_informed_of_edit_while_connecting :
    ¬ Along step Informed (init sampleConfig)
      [.connect, .updateConfig { sampleConfig with crouchEnabled := true }, .line 0 .spawn] := by
  decide

theorem informed_iff_edit_undone :
    Along step Informed (init sampleConfig)
        [.connect, .updateConfig { sampleConfig with crouchEnabled := true },
          .updateConfig sampleConfig, .line 0 .spawn] ↔
      Meets step (fun s i => ¬s.SpawnsOutdated i) (init sampleConfig)
        [.connect, .updateConfig { sampleConfig with crouchEnabled := true },
          .updateConfig sampleConfig, .line 0 .spawn] :=
  informed_iff sampleConfig _ (by simp)

end AfkClient.Client

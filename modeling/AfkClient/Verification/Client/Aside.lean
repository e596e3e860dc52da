import AfkClient.Model.Client

/-! Handlers that only report, check the crouching bot, or write a line without
settings. Whatever a proof needs about them is that they leave the rest alone. -/

namespace AfkClient.Client

/-- The settings a line tells the bot. -/
def settingsOf : BotMessage → Option BehaviorSettings
  | .config config => some config.settings
  | .configure settings => some settings
  | _ => none

/-- The settings a bot was last told, by the lines written to it. -/
def told (stdin : List BotMessage) : Option BehaviorSettings := stdin.findSome? settingsOf

/-- The settings of an initial line. -/
def initialSettingsOf : BotMessage → Option BehaviorSettings
  | .config config => some config.settings
  | _ => none

/-- The settings a bot was started with. -/
def startedWith (stdin : List BotMessage) : Option BehaviorSettings :=
  stdin.findSome? initialSettingsOf

/-- `t` is `s` apart from reports, crouch checks and lines without settings. -/
structure Aside (s t : Client) : Prop where
  eq : t = { s with
    periodicCrouchTimer := t.periodicCrouchTimer
    pendingPeriodicCrouchCheck := t.pendingPeriodicCrouchCheck
    restartCrouchTimer := t.restartCrouchTimer
    restartCrouchWindowEnd := t.restartCrouchWindowEnd
    lastCrouchRestartAt := t.lastCrouchRestartAt
    pendingRestartCrouchCheck := t.pendingRestartCrouchCheck
    stdin := t.stdin
    outbox := t.outbox }
  told : told t.stdin = told s.stdin ∧ startedWith t.stdin = startedWith s.stdin

namespace Aside

variable {s t u : Client}

theorem refl (s : Client) : Aside s s := ⟨rfl, rfl, rfl⟩

theorem trans (h : Aside s t) (h' : Aside t u) : Aside s u := by
  refine ⟨?_, h'.told.1.trans h.told.1, h'.told.2.trans h.told.2⟩
  rw [h'.eq, h.eq]

theorem config (h : Aside s t) : t.config = s.config := by rw [h.eq]

theorem subprocess (h : Aside s t) : t.subprocess = s.subprocess := by rw [h.eq]

theorem status (h : Aside s t) : t.status = s.status := by rw [h.eq]

theorem manuallyStopped (h : Aside s t) : t.manuallyStopped = s.manuallyStopped := by rw [h.eq]

theorem stdinWritable (h : Aside s t) : t.stdinWritable = s.stdinWritable := by rw [h.eq]

end Aside

/-! ### Handlers that stay aside -/

theorem emit_aside (s : Client) (o : Output) : Aside s (s.emit o) := ⟨rfl, rfl, rfl⟩

theorem emitConsole_aside (s : Client) (type : ConsoleEventType) (message : String) :
    Aside s (s.emitConsole type message) := ⟨rfl, rfl, rfl⟩

theorem sendToBot_aside (s : Client) {message : BotMessage} (h : settingsOf message = none) :
    Aside s (s.sendToBot message) := by
  have hstart : initialSettingsOf message = none := by
    cases message <;> simp_all [settingsOf, initialSettingsOf]
  unfold sendToBot
  split
  · split
    · exact ⟨rfl, by simp [Client.told, startedWith, emit, h, hstart]⟩
    · exact .refl s
  · exact .refl s

theorem syncPeriodicCrouchChecks_aside (s : Client) : Aside s s.syncPeriodicCrouchChecks := by
  have hsend : Aside s (s.sendToBot .checkCrouch) := sendToBot_aside s rfl
  have hsent : Aside s { s.sendToBot .checkCrouch with pendingPeriodicCrouchCheck := false } :=
    hsend.trans ⟨rfl, rfl, rfl⟩
  unfold syncPeriodicCrouchChecks
  split
  · exact ⟨rfl, rfl, rfl⟩
  split
  · dsimp only
    split <;> split
    · exact hsent.trans ⟨rfl, rfl, rfl⟩
    · exact hsent
    · exact ⟨rfl, rfl, rfl⟩
    · exact .refl s
  · exact .refl s

theorem setStatus_aside (s : Client) (status : ClientStatus) :
    Aside { s with status := status } (s.setStatus status) := by
  unfold setStatus
  split
  · rename_i h
    subst h
    exact .refl s
  · exact (syncPeriodicCrouchChecks_aside _).trans (emit_aside _ _)

theorem scheduleRestartCrouchChecks_aside (s : Client) (restartAt : ℤ) :
    Aside s (s.scheduleRestartCrouchChecks restartAt) := by
  unfold scheduleRestartCrouchChecks
  split
  · exact .refl s
  · exact ⟨rfl, rfl, rfl⟩

theorem sendRestartCrouchCheck_aside (s : Client) : Aside s s.sendRestartCrouchCheck := by
  unfold sendRestartCrouchCheck
  split
  · exact sendToBot_aside s rfl
  · exact .refl s

theorem sendCommand_aside (s : Client) (command : String) : Aside s (s.sendCommand command).1 := by
  unfold sendCommand
  split
  · exact emitConsole_aside s _ _
  split
  · exact emitConsole_aside s _ _
  split
  · exact emitConsole_aside s _ _
  split
  · refine (sendToBot_aside s ?_).trans (emitConsole_aside _ _ _)
    split <;> rfl
  · exact emitConsole_aside s _ _

theorem cleanSpawner_aside (s : Client) : Aside s s.cleanSpawner.1 := by
  unfold cleanSpawner
  split
  · exact emitConsole_aside s _ _
  · exact (sendToBot_aside s rfl).trans (emitConsole_aside _ _ _)

theorem onRestartCrouch_aside (s : Client) (handle : ℕ) (timer : CrouchTimer) :
    Aside s (s.onRestartCrouch handle timer) := by
  unfold onRestartCrouch
  dsimp only
  have hupdate (f : CrouchTimer → CrouchTimer) :
      Aside s { s with restartCrouchTimer := s.restartCrouchTimer.update handle f } := ⟨rfl, rfl, rfl⟩
  have hsent (f : CrouchTimer → CrouchTimer) := (hupdate f).trans (sendRestartCrouchCheck_aside _)
  split <;> split
  · exact (hsent _).trans ⟨rfl, rfl, rfl⟩
  · exact (hupdate _).trans ⟨rfl, rfl, rfl⟩
  · exact (hsent _).trans ⟨rfl, rfl, rfl⟩
  · exact hupdate _

theorem onPeriodicCrouch_aside (s : Client) (handle : ℕ) : Aside s (s.onPeriodicCrouch handle) := by
  unfold onPeriodicCrouch
  dsimp only
  have hupdate (f : ℤ → ℤ) :
      Aside s { s with periodicCrouchTimer := s.periodicCrouchTimer.update handle f } := ⟨rfl, rfl, rfl⟩
  split
  · exact ((hupdate _).trans (sendToBot_aside _ rfl)).trans ⟨rfl, rfl, rfl⟩
  · exact ⟨rfl, rfl, rfl⟩

theorem announceRestart_aside (s : Client) (seconds : ℕ) :
    Aside { s with worldRestartAt := some (s.now + seconds * 1000) } (s.announceRestart seconds) := by
  unfold announceRestart
  dsimp only
  refine .trans ?_ ((sendToBot_aside _ rfl).trans (emitConsole_aside _ _ _))
  split
  · exact scheduleRestartCrouchChecks_aside _ _
  · exact .refl _

theorem pauseForRestart_aside (s : Client) (sender : Option String) (clean : String) :
    ∃ restartAt, Aside { s with worldRestartAt := restartAt } (s.pauseForRestart sender clean) := by
  unfold pauseForRestart
  split
  · split
    · exact ⟨_, announceRestart_aside s _⟩
    · exact ⟨_, .refl s⟩
  · exact ⟨_, .refl s⟩

theorem bookEarning_aside (s : Client) (clean : String) : Aside s (s.bookEarning clean) := by
  unfold bookEarning
  split
  · exact emit_aside s _
  · exact .refl s

theorem reportChat_aside (s : Client) (sender : Option String) (clean : String) :
    Aside s (s.reportChat sender clean) := by
  unfold reportChat
  dsimp only
  split
  · exact (emit_aside s _).trans (emitConsole_aside _ _ _)
  · exact (emit_aside s _).trans (emitConsole_aside _ _ _)

/-- A teardown ends the connection's data and the watchdog, and nothing else. -/
theorem teardownSubprocess_aside (s : Client) :
    Aside { s with
      onlineWatchdog := s.onlineWatchdog.clear, subprocess := none, connectedSince := none,
      msaSignIn := none, authenticated := false } s.teardownSubprocess := by
  unfold teardownSubprocess
  dsimp only
  split
  · rename_i h
    have hnone : s.subprocess = none := h
    refine ⟨?_, rfl, rfl⟩
    simp only [clearOnlineWatchdog, hnone]
  · have hsend : Aside s.clearOnlineWatchdog (s.clearOnlineWatchdog.sendToBot .disconnect) :=
      sendToBot_aside _ rfl
    refine ⟨?_, hsend.told⟩
    simp only [emit]
    rw [hsend.eq]
    rfl

theorem scheduleReconnect_aside (s : Client) (reason : String) (stableForMs : ℤ) :
    Aside { s with
      reconnectPolicy := (s.reconnectPolicy.delay reason stableForMs).2
      consulted := s.attempts :: s.consulted, status := .reconnecting
      reconnectTimer :=
        s.reconnectTimer.arm (s.now + (s.reconnectPolicy.delay reason stableForMs).1) }
      (s.scheduleReconnect reason stableForMs) := by
  let consulted := { s with
    reconnectPolicy := (s.reconnectPolicy.delay reason stableForMs).2
    consulted := s.attempts :: s.consulted }
  have hset (message : String) := (setStatus_aside consulted .reconnecting).trans
    (emitConsole_aside (consulted.setStatus .reconnecting) .system message)
  have htold := (hset s!"Reconnecting in {((s.reconnectPolicy.delay reason stableForMs).1 + 500) / 1000}s...").told
  refine ⟨?_, htold⟩
  simp only [scheduleReconnect]
  rw [(hset _).eq]

end AfkClient.Client

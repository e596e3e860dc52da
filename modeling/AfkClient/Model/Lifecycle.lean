import AfkClient.Model.Client

/-! The life cycle of a supervised connection, apart from what it reports and what it
tells the bot. A step is caused by a start of the user, by a stop, or by anything else
that may end, retry or confirm a connection. -/

namespace AfkClient

/-- The part of a client's state that decides when a connection starts and ends. -/
structure Lifecycle where
  subprocess : Option ℕ
  status : ClientStatus
  reconnectTimer : TimerVar ℤ
  restartTimer : TimerVar ℤ
  hangTimer : TimerVar HangTimer
  onlineWatchdog : TimerVar ℤ
  manuallyStopped : Bool
  connectionEnded : Bool
  created : ℕ
  attempts : ℕ
  consulted : List ℕ

namespace Lifecycle

/-! ### Transitions -/

def teardown (c : Lifecycle) : Lifecycle :=
  { c with onlineWatchdog := c.onlineWatchdog.clear, subprocess := none }

/-- A connection attempt ends; `due` is when a reconnect would fire. -/
def endAttempt (c : Lifecycle) (autoReconnect : Bool) (due : ℤ) : Lifecycle :=
  if c.connectionEnded then c
  else
    let c := { c with connectionEnded := true, hangTimer := c.hangTimer.clear }.teardown
    if c.manuallyStopped then { c with status := .offline }
    else if !autoReconnect then { c with status := .error }
    else { c with
      consulted := c.attempts :: c.consulted, status := .reconnecting,
      reconnectTimer := c.reconnectTimer.arm due }

/-- A connection attempt begins and gets its controller. -/
def begin (c : Lifecycle) (status : ClientStatus) (due entryDue : ℤ) : Lifecycle :=
  { c with
    connectionEnded := false, attempts := c.attempts + 1, status := status
    subprocess := some c.created, created := c.created + 1
    onlineWatchdog := c.onlineWatchdog.clear.arm due
    hangTimer := c.hangTimer.arm ⟨.entry, some c.created, entryDue⟩ }

/-- A connection attempt begins, and creating its controller throws. -/
def beginFailing (c : Lifecycle) (status : ClientStatus) (autoReconnect : Bool) (due : ℤ) :
    Lifecycle :=
  { c with connectionEnded := false, attempts := c.attempts + 1, status := status }.endAttempt
    autoReconnect due

/-- One of the two ways a connection attempt can begin. -/
inductive Begins (c : Lifecycle) (status : ClientStatus) : Lifecycle → Prop where
  | created (due entryDue : ℤ) : Begins c status (c.begin status due entryDue)
  | failed (autoReconnect : Bool) (due : ℤ) :
      Begins c status (c.beginFailing status autoReconnect due)

/-- All timers cleared and the controller torn down, as a stop and a restart do. -/
def halt (c : Lifecycle) : Lifecycle :=
  { c with
    restartTimer := c.restartTimer.clear, reconnectTimer := c.reconnectTimer.clear
    hangTimer := c.hangTimer.clear, onlineWatchdog := c.onlineWatchdog.clear
    subprocess := none, status := .offline }

/-- What a step is caused by. -/
inductive Cause where
  | start | stop | other
  deriving DecidableEq

/-- Everything one step can do to the life cycle. -/
inductive Step : Cause → Lifecycle → Lifecycle → Prop where
  | skip (cause) (c) (h : cause ≠ .stop) : Step cause c c
  | connect (c d) (hs : c.status = .offline ∨ c.status = .error) (ht : c.restartTimer.handle = none)
      (hb : Begins { c with manuallyStopped := false, reconnectTimer := c.reconnectTimer.clear }
        .connecting d) : Step .start c d
  | restart (c) (due : ℤ) :
      Step .start c
        { c.halt with manuallyStopped := false, restartTimer := c.restartTimer.clear.arm due }
  | disconnect (c) : Step .stop c { c.halt with manuallyStopped := true }
  | spawned (c) {child} (h : c.subprocess = some child) :
      Step .other c { c with hangTimer := c.hangTimer.clear, status := .online }
  | rearmed (c) {child} (h : c.subprocess = some child) (kind : HangKind) (due : ℤ) :
      Step .other c { c with hangTimer := c.hangTimer.clear.arm ⟨kind, some child, due⟩ }
  | ended (c) {child} (h : c.subprocess = some child) (autoReconnect : Bool) (due : ℤ) :
      Step .other c (c.endAttempt autoReconnect due)
  | closedAfterStop (c) {child} (h : c.subprocess = some child) (hm : c.manuallyStopped) :
      Step .other c c.teardown
  | reconnectFired (c d) {handle due} (h : c.reconnectTimer.find? handle = some due)
      (hb : Begins { c with reconnectTimer := (c.reconnectTimer.fire handle).forget }
        .reconnecting d) : Step .other c d
  | restartFired (c d) {handle due} (h : c.restartTimer.find? handle = some due)
      (hm : c.manuallyStopped = false)
      (hb : Begins { c with restartTimer := (c.restartTimer.fire handle).forget }
        .connecting d) : Step .other c d
  | restartIgnored (c) {handle due} (h : c.restartTimer.find? handle = some due)
      (hm : c.manuallyStopped) :
      Step .other c { c with restartTimer := (c.restartTimer.fire handle).forget }
  | hangIgnored (c) {handle timer} (h : c.hangTimer.find? handle = some timer) :
      Step .other c { c with hangTimer := c.hangTimer.fire handle }
  | hangEnded (c) {handle timer} (h : c.hangTimer.find? handle = some timer)
      (autoReconnect : Bool) (due : ℤ) :
      Step .other c
        ({ c with hangTimer := c.hangTimer.fire handle }.endAttempt autoReconnect due)
  | watchdogIgnored (c) (handle : ℕ) (due : ℤ) :
      Step .other c { c with onlineWatchdog := c.onlineWatchdog.update handle fun _ => due }
  | watchdogEnded (c) {handle due} (h : c.onlineWatchdog.find? handle = some due)
      (next : ℤ) (autoReconnect : Bool) (reconnectDue : ℤ) :
      Step .other c
        ({ c with onlineWatchdog := c.onlineWatchdog.update handle fun _ => next }.endAttempt
          autoReconnect reconnectDue)

/-! ### Invariant -/

/-- No timer of an earlier connection is left. -/
structure Quiet (c : Lifecycle) : Prop where
  subprocess : c.subprocess = none
  hang : c.hangTimer.pending = []
  watchdog : c.onlineWatchdog.pending = []

/-- Where a connection stands. -/
inductive Phase (c : Lifecycle) : Prop where
  | idle (hq : c.Quiet) (hs : c.status = .offline ∨ c.status = .error)
      (hr : c.reconnectTimer.pending = []) (ht : c.restartTimer.pending = [])
  | restarting (hq : c.Quiet) (hs : c.status = .offline) (hm : c.manuallyStopped = false)
      (hr : c.reconnectTimer.pending = [])
  | retrying (hq : c.Quiet) (hs : c.status = .reconnecting) (hm : c.manuallyStopped = false)
      (ht : c.restartTimer.pending = [])
  | live (child : ℕ) (hc : c.subprocess = some child) (hm : c.manuallyStopped = false)
      (he : c.connectionEnded = false)
      (hs : c.status = .connecting ∨ c.status = .reconnecting ∨ c.status = .online)
      (hr : c.reconnectTimer.pending = []) (ht : c.restartTimer.pending = [])
      (ha : ∀ p ∈ c.hangTimer.pending, p.2.armedBy = some child)

/-- The life-cycle invariant: no timer is lost sight of, the phases are the only
states, and the policy is consulted at most once for each attempt. -/
structure Ok (c : Lifecycle) : Prop where
  reconnect : c.reconnectTimer.Tracked
  restart : c.restartTimer.Tracked
  hang : c.hangTimer.Tracked
  watchdog : c.onlineWatchdog.Tracked
  phase : c.Phase
  consulted_nodup : c.consulted.Nodup
  consulted_le : ∀ n ∈ c.consulted, n ≤ c.attempts
  consulted_lt : c.connectionEnded = false → ∀ n ∈ c.consulted, n < c.attempts

/-- The state in which the current attempt may end. -/
structure Endable (c : Lifecycle) : Prop where
  reconnect : c.reconnectTimer.pending = []
  restart : c.restartTimer.pending = []
  hang : c.hangTimer.Tracked
  watchdog : c.onlineWatchdog.Tracked
  stopped : c.manuallyStopped = false
  ended : c.connectionEnded = false
  consulted_nodup : c.consulted.Nodup
  consulted_lt : ∀ n ∈ c.consulted, n < c.attempts

/-- The state from which an attempt may begin: nothing of another one is pending. -/
structure Startable (c : Lifecycle) : Prop where
  quiet : c.Quiet
  reconnect : c.reconnectTimer.pending = []
  restart : c.restartTimer.pending = []
  stopped : c.manuallyStopped = false
  consulted_nodup : c.consulted.Nodup
  consulted_le : ∀ n ∈ c.consulted, n ≤ c.attempts

variable {c d : Lifecycle}

theorem Endable.endAttempt (h : c.Endable) (autoReconnect : Bool) (due : ℤ) :
    (c.endAttempt autoReconnect due).Ok := by
  have hhang := h.hang.clear_pending
  have hwd := h.watchdog.clear_pending
  have hle : ∀ n ∈ c.consulted, n ≤ c.attempts := fun n hn => (h.consulted_lt n hn).le
  simp only [Lifecycle.endAttempt, teardown, h.ended, h.stopped]
  cases autoReconnect with
  | false =>
      exact {
        reconnect := TimerVar.tracked_of_pending_nil h.reconnect
        restart := TimerVar.tracked_of_pending_nil h.restart
        hang := TimerVar.tracked_of_pending_nil hhang
        watchdog := TimerVar.tracked_of_pending_nil hwd
        phase := .idle ⟨rfl, hhang, hwd⟩ (.inr rfl) h.reconnect h.restart
        consulted_nodup := h.consulted_nodup
        consulted_le := hle
        consulted_lt := fun hf => by cases hf }
  | true =>
      exact {
        reconnect := TimerVar.arm_tracked h.reconnect _
        restart := TimerVar.tracked_of_pending_nil h.restart
        hang := TimerVar.tracked_of_pending_nil hhang
        watchdog := TimerVar.tracked_of_pending_nil hwd
        phase := .retrying ⟨rfl, hhang, hwd⟩ rfl rfl h.restart
        consulted_nodup :=
          List.nodup_cons.mpr ⟨fun hm => (h.consulted_lt _ hm).false, h.consulted_nodup⟩
        consulted_le := List.forall_mem_cons.mpr ⟨le_rfl, hle⟩
        consulted_lt := fun hf => by cases hf }

theorem Startable.begins {status : ClientStatus} (h : c.Startable)
    (hs : status = .connecting ∨ status = .reconnecting) (hb : c.Begins status d) : d.Ok := by
  have hlt : ∀ n ∈ c.consulted, n < c.attempts + 1 :=
    fun n hn => Nat.lt_succ_of_le (h.consulted_le n hn)
  have hwd := TimerVar.tracked_of_pending_nil h.quiet.watchdog
  cases hb with
  | created due entryDue =>
      exact {
        reconnect := TimerVar.tracked_of_pending_nil h.reconnect
        restart := TimerVar.tracked_of_pending_nil h.restart
        hang := TimerVar.arm_tracked h.quiet.hang _
        watchdog := TimerVar.arm_tracked hwd.clear_pending _
        phase := .live c.created rfl h.stopped rfl (by rcases hs with hs | hs <;> simp [begin, hs])
          h.reconnect h.restart (by simp [begin, TimerVar.arm, h.quiet.hang])
        consulted_nodup := h.consulted_nodup
        consulted_le := fun n hn => (hlt n hn).le
        consulted_lt := fun _ => hlt }
  | failed autoReconnect due =>
      apply Endable.endAttempt
      exact {
        reconnect := h.reconnect
        restart := h.restart
        hang := TimerVar.tracked_of_pending_nil h.quiet.hang
        watchdog := hwd
        stopped := h.stopped
        ended := rfl
        consulted_nodup := h.consulted_nodup
        consulted_lt := hlt }

/-- A live connection may end at any moment. -/
theorem Ok.endable (h : c.Ok) {child : ℕ} (hc : c.subprocess = some child) : c.Endable := by
  cases h.phase with
  | idle hq | restarting hq | retrying hq => simp [hq.subprocess] at hc
  | live child' hc' hm he hs hr ht ha =>
      exact ⟨hr, ht, h.hang, h.watchdog, hm, he, h.consulted_nodup, h.consulted_lt he⟩

/-- A hang timer or a watchdog that is still pending belongs to a live connection. -/
theorem Ok.live_of_pending (h : c.Ok)
    (hp : c.hangTimer.pending ≠ [] ∨ c.onlineWatchdog.pending ≠ []) :
    ∃ child, c.subprocess = some child := by
  cases h.phase with
  | idle hq | restarting hq | retrying hq => simp [hq.hang, hq.watchdog] at hp
  | live child hc => exact ⟨child, hc⟩

theorem Ok.startable_of_connect (h : c.Ok) (hs : c.status = .offline ∨ c.status = .error)
    (ht : c.restartTimer.handle = none) :
    Startable { c with manuallyStopped := false, reconnectTimer := c.reconnectTimer.clear } := by
  have hquiet : c.Quiet := by
    cases h.phase with
    | idle hq | restarting hq | retrying hq => exact hq
    | live child hc hm he hlive => rcases hs with hs | hs <;> simp [hs] at hlive
  exact ⟨⟨hquiet.subprocess, hquiet.hang, hquiet.watchdog⟩, h.reconnect.clear_pending,
    h.restart.pending_nil ht, rfl, h.consulted_nodup, h.consulted_le⟩

theorem Ok.startable_of_reconnect (h : c.Ok) {handle : ℕ} {due : ℤ}
    (hf : c.reconnectTimer.find? handle = some due) :
    Startable { c with reconnectTimer := (c.reconnectTimer.fire handle).forget } := by
  have hpend := TimerVar.mem_of_find? hf
  cases h.phase with
  | idle hq hs hr | restarting hq hs hm hr | live child hc hm he hs hr => simp [hr] at hpend
  | retrying hq hs hm ht =>
      exact ⟨⟨hq.subprocess, hq.hang, hq.watchdog⟩, h.reconnect.fire_pending hf, ht, hm,
        h.consulted_nodup, h.consulted_le⟩

theorem Ok.startable_of_restart (h : c.Ok) {handle : ℕ} {due : ℤ}
    (hf : c.restartTimer.find? handle = some due) :
    Startable { c with restartTimer := (c.restartTimer.fire handle).forget } := by
  have hpend := TimerVar.mem_of_find? hf
  cases h.phase with
  | idle hq hs hr ht | retrying hq hs hm ht | live child hc hm he hs hr ht => simp [ht] at hpend
  | restarting hq hs hm hr =>
      exact ⟨⟨hq.subprocess, hq.hang, hq.watchdog⟩, hr, h.restart.fire_pending hf, hm,
        h.consulted_nodup, h.consulted_le⟩

/-- Events of a live connection that only touch its hang timer and its status. -/
theorem Ok.stay_live (h : c.Ok) {child : ℕ} (hc : c.subprocess = some child)
    {hang : TimerVar HangTimer} {status : ClientStatus} (ht : hang.Tracked)
    (ha : ∀ p ∈ hang.pending, p.2.armedBy = some child)
    (hs : status = c.status ∨ status = .online) :
    Ok { c with hangTimer := hang, status := status } := by
  cases h.phase with
  | idle hq | restarting hq | retrying hq => simp [hq.subprocess] at hc
  | live child' hc' hm he hs' hr hrt _ =>
      refine { h with hang := ht, phase := .live child hc hm he ?_ hr hrt ha }
      rcases hs with rfl | rfl
      · exact hs'
      · exact .inr (.inr rfl)

/-- Every step keeps the invariant. -/
theorem Ok.step {cause : Cause} (h : c.Ok) (hstep : Step cause c d) : d.Ok := by
  cases hstep with
  | skip => exact h
  | connect _ _ hs ht hb => exact (h.startable_of_connect hs ht).begins (.inl rfl) hb
  | restart _ due =>
      exact { h with
        reconnect := TimerVar.tracked_of_pending_nil h.reconnect.clear_pending
        restart := TimerVar.arm_tracked h.restart.clear_pending _
        hang := TimerVar.tracked_of_pending_nil h.hang.clear_pending
        watchdog := TimerVar.tracked_of_pending_nil h.watchdog.clear_pending
        phase := .restarting ⟨rfl, h.hang.clear_pending, h.watchdog.clear_pending⟩ rfl rfl
          h.reconnect.clear_pending }
  | disconnect =>
      exact { h with
        reconnect := TimerVar.tracked_of_pending_nil h.reconnect.clear_pending
        restart := TimerVar.tracked_of_pending_nil h.restart.clear_pending
        hang := TimerVar.tracked_of_pending_nil h.hang.clear_pending
        watchdog := TimerVar.tracked_of_pending_nil h.watchdog.clear_pending
        phase := .idle ⟨rfl, h.hang.clear_pending, h.watchdog.clear_pending⟩ (.inl rfl)
          h.reconnect.clear_pending h.restart.clear_pending }
  | spawned _ hc =>
      have hnil := h.hang.clear_pending
      exact h.stay_live hc (TimerVar.tracked_of_pending_nil hnil) (by simp [hnil]) (.inr rfl)
  | rearmed _ hc kind due =>
      have hnil := h.hang.clear_pending
      exact h.stay_live hc (TimerVar.arm_tracked hnil _) (by simp [TimerVar.arm, hnil]) (.inl rfl)
  | ended _ hc => exact (h.endable hc).endAttempt _ _
  | closedAfterStop _ hc hm => simp [(h.endable hc).stopped] at hm
  | reconnectFired _ _ hf hb => exact (h.startable_of_reconnect hf).begins (.inr rfl) hb
  | restartFired _ _ hf hm hb => exact (h.startable_of_restart hf).begins (.inl rfl) hb
  | restartIgnored _ hf hm =>
      have hrun : c.manuallyStopped = false := (h.startable_of_restart hf).stopped
      simp [hrun] at hm
  | hangIgnored _ hf =>
      obtain ⟨child, hc⟩ := h.live_of_pending (.inl (List.ne_nil_of_mem (TimerVar.mem_of_find? hf)))
      have hnil := h.hang.fire_pending hf
      exact h.stay_live hc (TimerVar.tracked_of_pending_nil hnil) (by simp [hnil]) (.inl rfl)
  | hangEnded _ hf =>
      obtain ⟨child, hc⟩ := h.live_of_pending (.inl (List.ne_nil_of_mem (TimerVar.mem_of_find? hf)))
      have he := h.endable hc
      have hfired : Endable { c with hangTimer := c.hangTimer.fire _ } :=
        { he with hang := TimerVar.tracked_of_pending_nil (h.hang.fire_pending hf) }
      exact hfired.endAttempt _ _
  | watchdogIgnored _ handle due =>
      have hwd := h.watchdog.update handle fun _ => due
      refine { h with watchdog := hwd, phase := ?_ }
      have hquiet (hq : c.Quiet) : Quiet
          { c with onlineWatchdog := c.onlineWatchdog.update handle fun _ => due } :=
        ⟨hq.subprocess, hq.hang, by simp [TimerVar.update, hq.watchdog]⟩
      cases h.phase with
      | idle hq hs hr ht => exact .idle (hquiet hq) hs hr ht
      | restarting hq hs hm hr => exact .restarting (hquiet hq) hs hm hr
      | retrying hq hs hm ht => exact .retrying (hquiet hq) hs hm ht
      | live child hc hm he hs hr ht ha => exact .live child hc hm he hs hr ht ha
  | @watchdogEnded _ handle _ hf next =>
      obtain ⟨child, hc⟩ := h.live_of_pending (.inr (List.ne_nil_of_mem (TimerVar.mem_of_find? hf)))
      have he := h.endable hc
      have hfired : Endable
          { c with onlineWatchdog := c.onlineWatchdog.update handle fun _ => next } :=
        { he with watchdog := h.watchdog.update handle fun _ => next }
      exact hfired.endAttempt _ _

/-- A stopped client waits for the user: it is offline and nothing is pending. -/
structure Stopped (c : Lifecycle) : Prop where
  quiet : c.Quiet
  status : c.status = .offline
  reconnect : c.reconnectTimer.pending = []
  restart : c.restartTimer.pending = []

theorem Ok.stopped (h : c.Ok) (hstep : Step .stop c d) : d.Stopped := by
  cases hstep with
  | skip _ _ hne => exact absurd rfl hne
  | disconnect =>
      exact ⟨⟨rfl, h.hang.clear_pending, h.watchdog.clear_pending⟩, rfl,
        h.reconnect.clear_pending, h.restart.clear_pending⟩

theorem not_find?_of_pending_nil {κ : Type*} {t : TimerVar κ} (h : t.pending = []) {handle : ℕ}
    {timer : κ} (hf : t.find? handle = some timer) : False := by
  simpa [h] using TimerVar.mem_of_find? hf

/-- Only a start ends the stopped state, and nothing else creates a controller in it. -/
theorem Stopped.step {cause : Cause} (h : c.Stopped) (hok : c.Ok) (hstep : Step cause c d)
    (hcause : cause ≠ .start) : d.Stopped ∧ d.created = c.created := by
  cases hstep with
  | skip => exact ⟨h, rfl⟩
  | connect | restart => exact absurd rfl hcause
  | disconnect => exact ⟨hok.stopped (.disconnect c), rfl⟩
  | spawned _ hc | rearmed _ hc | ended _ hc | closedAfterStop _ hc =>
      simp [h.quiet.subprocess] at hc
  | reconnectFired _ _ hf => exact (not_find?_of_pending_nil h.reconnect hf).elim
  | restartFired _ _ hf | restartIgnored _ hf => exact (not_find?_of_pending_nil h.restart hf).elim
  | hangIgnored _ hf | hangEnded _ hf => exact (not_find?_of_pending_nil h.quiet.hang hf).elim
  | watchdogEnded _ hf => exact (not_find?_of_pending_nil h.quiet.watchdog hf).elim
  | watchdogIgnored =>
      have hwd := h.quiet.watchdog
      exact ⟨⟨⟨h.quiet.subprocess, h.quiet.hang, by simp [TimerVar.update, hwd]⟩, h.status,
        h.reconnect, h.restart⟩, rfl⟩

end Lifecycle

end AfkClient

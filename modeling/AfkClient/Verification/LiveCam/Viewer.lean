import AfkClient.Model.CameraSocket
import AfkClient.Verification.Authorization.Socket

/-! Frames of the live camera go out one at a time, and a viewer that acknowledges them gets more. -/

namespace AfkClient.CameraSocket

open Auth (SessionContext Access Socket Database Revocation)

variable {φ : Type} {initial : SessionContext} {access : Access}

/-! ### The socket -/

/-- The action has not started. -/
def Unstarted (s : Socket) (action : ℕ) : Prop :=
  action ∈ s.queue ∨ ∃ phase, s.current = some ⟨action, phase⟩ ∧ phase ≠ .acting ∧ phase ≠ .ended

theorem Unstarted.congr {s t : Socket} {action : ℕ} (h : Unstarted s action)
    (hcurrent : t.current = s.current) (hqueue : t.queue = s.queue) : Unstarted t action := by
  rw [Unstarted, hcurrent, hqueue]
  exact h

theorem Unstarted.runAction {s : Socket} {action : ℕ} (h : Unstarted s action) :
    Unstarted (Auth.runAction s) action := by
  rw [Auth.runAction]
  split
  · exact h
  · split
    · exact h.congr (Auth.close_current s) (Auth.close_queue s)
    · simp only
      split
      · rename_i hnone
        rcases h with hqueue | ⟨phase, hcurrent, -⟩
        · exact .inl hqueue
        · cases hnone.symm.trans hcurrent
      · rcases h with hqueue | hcurrent
        · exact .inl (List.mem_append_left _ hqueue)
        · exact .inr hcurrent

/-- The running job goes on to another phase. -/
theorem Unstarted.setPhase {s t : Socket} {job : Auth.Job} {action : ℕ} {phase : Auth.Phase}
    (h : Unstarted s action) (hjob : s.current = some job) (hqueue : t.queue = s.queue)
    (hcurrent : t.current = some ⟨job.action, phase⟩) (hphase : phase ≠ .acting ∧ phase ≠ .ended) :
    Unstarted t action := by
  rcases h with hmem | ⟨_, hsame, -⟩
  · exact .inl (hqueue ▸ hmem)
  · obtain rfl := Option.some.inj (hjob.symm.trans hsame)
    exact .inr ⟨phase, hcurrent, hphase⟩

/-- What becomes of an action when the head of the queue goes on. -/
theorem proceed_unstarted {s : Socket} {job : Auth.Job} (hjob : s.current = some job) {action : ℕ}
    (h : Unstarted s action) : (Auth.proceed access job s).ready ≠ .open ∨
      Unstarted (Auth.proceed access job s) action ∨
      (job.phase ≠ .acting ∧ (Auth.proceed access job s).current = some ⟨action, .acting⟩) := by
  have hdeny : (Auth.deny job.action s).ready ≠ .open := Auth.close_ready (s.emit _)
  have hact : job.phase ≠ .acting → (Auth.act job.action s).ready ≠ .open ∨
      Unstarted (Auth.act job.action s) action ∨
      (job.phase ≠ .acting ∧ (Auth.act job.action s).current = some ⟨action, .acting⟩) := by
    intro hphase
    rw [Auth.act]
    split
    · rcases h with hmem | ⟨_, hsame, -⟩
      · exact .inr (.inl (.inl hmem))
      · obtain rfl := Option.some.inj (hjob.symm.trans hsame)
        exact .inr (.inr ⟨hphase, rfl⟩)
    · rename_i hclosed
      exact .inl hclosed
  obtain ⟨number, phase⟩ := job
  rw [Auth.proceed.eq_def]
  cases phase with
  | reached =>
      simp only
      split
      · exact .inr (.inl (h.setPhase hjob rfl rfl (by simp)))
      · rename_i hclosed
        exact .inl hclosed
  | lookup => exact .inr (.inl h)
  | looked answer =>
      rcases answer with _ | _ | session
      · exact .inl hdeny
      · exact .inl hdeny
      · simp only [Auth.grant]
        split
        · exact .inl hdeny
        · split
          · exact hact (by simp)
          · exact .inr (.inl (h.setPhase hjob rfl rfl (by simp)))
  | check session => exact .inr (.inl h)
  | checked session answer =>
      rcases answer with _ | _ | _
      · exact .inl hdeny
      · exact .inl hdeny
      · exact hact (by simp)
  | acting => exact .inr (.inl h)
  | ended =>
      rcases h with hmem | ⟨phase, hsame, -, hended⟩
      · cases hqueue : s.queue with
        | nil =>
            rw [hqueue] at hmem
            cases hmem
        | cons first rest =>
            rw [hqueue] at hmem
            rcases List.mem_cons.mp hmem with rfl | hmem
            · exact .inr (.inl (.inr ⟨.reached, rfl, by simp⟩))
            · exact .inr (.inl (.inl hmem))
      · obtain rfl := congrArg Auth.Job.phase (Option.some.inj (hjob.symm.trans hsame))
        exact absurd rfl hended

theorem answer_unstarted {s : Socket} {job : Auth.Job} (hjob : s.current = some job) {action : ℕ}
    (h : Unstarted s action) (ok : Bool) : Unstarted (Auth.answer initial access job ok s) action := by
  rw [Auth.answer.eq_def]
  split
  · split <;> exact h.setPhase hjob rfl rfl (by simp)
  · split <;> exact h.setPhase hjob rfl rfl (by simp)
  · exact h

theorem actionEnds_unstarted {s : Socket} {job : Auth.Job} (hjob : s.current = some job) {action : ℕ}
    (h : Unstarted s action) (ok : Bool) : Unstarted (Auth.actionEnds job ok s) action := by
  obtain ⟨number, phase⟩ := job
  rw [Auth.actionEnds.eq_def]
  split
  · rename_i hacting
    obtain rfl : phase = .acting := hacting
    have hqueue : action ∈ s.queue := by
      rcases h with hmem | ⟨_, hsame, hnot, -⟩
      · exact hmem
      · obtain rfl := congrArg Auth.Job.phase (Option.some.inj (hjob.symm.trans hsame))
        exact absurd rfl hnot
    cases ok with
    | true => exact .inl hqueue
    | false => exact .inl (by simpa [Auth.deny] using hqueue)
  · exact h

/-- A socket that is not open stays so. -/
theorem step_closed {s : Socket} (h : s.ready ≠ .open) (input : Auth.Input) :
    (Auth.step initial access s input).ready ≠ .open := by
  have hdeny : ∀ action, ∀ t : Socket, (Auth.deny action t).ready ≠ .open :=
    fun action t => Auth.close_ready (t.emit _)
  cases input with
  | run => rwa [Auth.step, Auth.runAction, if_pos h]
  | send bufferedAmount => rwa [Auth.step, Auth.send, if_pos h]
  | subscribe =>
      rw [Auth.step, Auth.subscribe]
      simp only
      split <;> exact h
  | proceed =>
      rw [Auth.step]
      split
      · exact h
      · rename_i job hjob
        rw [Auth.proceed.eq_def]
        have hact : (Auth.act job.action s).ready ≠ .open := by rwa [Auth.act, if_neg h]
        split
        · exact h
        · rw [Auth.grant]
          split
          · exact hdeny _ _
          · split
            · exact hact
            · exact h
        · exact hdeny _ _
        · exact hact
        · exact hdeny _ _
        all_goals exact h
  | answer ok =>
      rw [Auth.step]
      split
      · exact h
      · rw [Auth.answer.eq_def]
        split
        · split <;> exact h
        · split <;> exact h
        · exact h
  | actionEnds ok =>
      rw [Auth.step]
      split
      · exact h
      · rw [Auth.actionEnds.eq_def]
        split
        · cases ok with
          | true => exact h
          | false => exact hdeny _ _
        · exact h
  | change db now => exact h
  | revoke revocation =>
      rw [Auth.step]
      split
      · exact Auth.close_ready _
      · exact h
  | close => exact Auth.close_ready s
  | closed =>
      rw [Auth.step]
      split
      · exact h
      · simp [Auth.onClose]

/-- An action starts on an open socket only. -/
theorem proceed_acting {s : Socket} {job : Auth.Job} {action : ℕ} (hphase : job.phase ≠ .acting)
    (h : (Auth.proceed access job s).current = some ⟨action, .acting⟩) (hjob : s.current = some job) :
    (Auth.proceed access job s).ready = .open := by
  have hact : (Auth.act job.action s).current = some ⟨action, .acting⟩ →
      (Auth.act job.action s).ready = .open := by
    rw [Auth.act]
    split
    · rename_i hopen
      exact fun _ => hopen
    · exact fun hended => by cases hended
  have hdeny : (Auth.deny job.action s).current ≠ some ⟨action, .acting⟩ := by
    simp [Auth.deny]
  have hsame : s.current ≠ some ⟨action, .acting⟩ := by
    intro hsame
    obtain rfl := Option.some.inj (hjob.symm.trans hsame)
    exact hphase rfl
  rw [Auth.proceed.eq_def] at h ⊢
  split at h
  · simp only [Auth.setPhase_current, Option.some.injEq, Auth.Job.mk.injEq] at h
    split at h <;> cases h.2
  · rw [Auth.grant] at h ⊢
    split at h
    · exact absurd h hdeny
    · rename_i hadmin
      rw [if_neg hadmin]
      split at h
      · exact hact h
      · cases h
  · exact absurd h hdeny
  · exact hact h
  · exact absurd h hdeny
  · cases hqueue : s.queue.head? with
    | none =>
        rw [hqueue] at h
        cases h
    | some first =>
        rw [hqueue] at h
        cases h
  all_goals exact absurd h hsame

theorem starting_spec {s : State φ} {action : ℕ} (h : s.starting initial access = some action) :
    (s.move initial access .proceed).socket.ready = .open ∧
      (s.move initial access .proceed).socket.current = some ⟨action, .acting⟩ := by
  rw [State.starting] at h
  split at h
  · cases h
  · rename_i hcurrent hnot
    obtain rfl := Option.some.inj h
    refine ⟨?_, hcurrent⟩
    rw [State.move]
    cases hjob : s.socket.current with
    | none =>
        rw [Auth.step, hjob] at hcurrent
        cases hjob.symm.trans hcurrent
    | some job =>
        rw [Auth.step, hjob] at hcurrent ⊢
        refine proceed_acting (fun hphase => ?_) hcurrent hjob
        obtain ⟨number, phase⟩ := job
        obtain rfl : phase = .acting := hphase
        exact hnot number hjob
  · cases h

/-! ### The frames -/

/-- The numbers of the frames that were sent. -/
def frames (log : List (Entry φ)) : List ℕ :=
  log.filterMap fun entry =>
    match entry with
    | .frame sequence _ _ => some sequence
    | _ => none

/-- Those that were not acknowledged since. -/
def unacknowledged (log : List (Entry φ)) : List ℕ :=
  log.foldl (fun sent entry =>
    match entry with
    | .frame sequence _ _ => sent ++ [sequence]
    | .ack sequence => sent.filter (· ≠ sequence)
    | _ => sent) []

theorem frames_append (log more : List (Entry φ)) : frames (log ++ more) = frames log ++ frames more :=
  List.filterMap_append

/-- Messages that are neither frames nor about the account's status. -/
def Entry.plain : Entry φ → Bool
  | .loading => true
  | .error => true
  | _ => false

structure Flow (s : State φ) : Prop where
  sequences : frames s.log = List.range' 1 s.sentSequence
  outstanding : unacknowledged s.log = if s.pendingSequence = 0 then [] else [s.pendingSequence]
  bound : s.pendingSequence ≤ s.sentSequence
  numbered : ∀ sequence image time, .frame sequence image time ∈ s.log → sequence ≤ s.sentSequence
  since : s.pendingSequence ≠ 0 → ∀ image time, .frame s.pendingSequence image time ∈ s.log →
    time = s.pendingSince
  offline : .offline ∈ s.log → s.socket.ready ≠ .open

theorem Flow.congr {s t : State φ} (h : Flow s) (hlog : t.log = s.log)
    (hsent : t.sentSequence = s.sentSequence) (hpending : t.pendingSequence = s.pendingSequence)
    (hsince : t.pendingSince = s.pendingSince)
    (hready : s.socket.ready ≠ .open → t.socket.ready ≠ .open) : Flow t := by
  obtain ⟨hsequences, houtstanding, hbound, hnumbered, hsinces, hoffline⟩ := h
  constructor
  · rw [hlog, hsent]
    exact hsequences
  · rw [hlog, hpending]
    exact houtstanding
  · rw [hpending, hsent]
    exact hbound
  · rw [hlog, hsent]
    exact hnumbered
  · rw [hlog, hpending, hsince]
    exact hsinces
  · rw [hlog]
    exact fun hmem => hready (hoffline hmem)

/-- A message other than a frame. -/
theorem Flow.add {s : State φ} (h : Flow s) {entry : Entry φ} {socket : Socket}
    (hentry : entry.plain = true ∨ entry = .offline ∧ socket.ready ≠ .open)
    (hready : s.socket.ready ≠ .open → socket.ready ≠ .open) :
    Flow { s with socket := socket, log := s.log ++ [entry] } := by
  obtain ⟨hsequences, houtstanding, hbound, hnumbered, hsince, hoffline⟩ := h
  have hframe : ∀ sequence image time, .frame sequence image time ∈ s.log ++ [entry] →
      .frame sequence image time ∈ s.log := by
    intro sequence image time hmem
    rcases List.mem_append.mp hmem with hmem | hmem
    · exact hmem
    · obtain rfl := List.mem_singleton.mp hmem
      rcases hentry with hplain | ⟨hoff, -⟩
      · cases hplain
      · cases hoff
  have hnone : frames [entry] = [] ∧
      unacknowledged (s.log ++ [entry]) = unacknowledged s.log := by
    rw [unacknowledged, List.foldl_append]
    rcases hentry with hplain | ⟨rfl, -⟩
    · cases entry with
      | loading => exact ⟨rfl, rfl⟩
      | error => exact ⟨rfl, rfl⟩
      | _ => cases hplain
    · exact ⟨rfl, rfl⟩
  refine ⟨?_, hnone.2.trans houtstanding, hbound,
    fun sequence image time hmem => hnumbered sequence image time (hframe _ _ _ hmem),
    fun hpending image time hmem => hsince hpending image time (hframe _ _ _ hmem), fun hmem => ?_⟩
  · rw [frames_append, hnone.1, List.append_nil]
    exact hsequences
  · rcases List.mem_append.mp hmem with hmem | hmem
    · exact hready (hoffline hmem)
    · obtain rfl := List.mem_singleton.mp hmem
      rcases hentry with hplain | ⟨-, hclosed⟩
      · cases hplain
      · exact hclosed

theorem Flow.ack {s : State φ} (h : Flow s) (sequence : ℕ) :
    Flow { s with
      pendingSequence := if sequence = s.pendingSequence then 0 else s.pendingSequence
      log := s.log ++ [.ack sequence] } := by
  obtain ⟨hsequences, houtstanding, hbound, hnumbered, hsince, hoffline⟩ := h
  have hold : ∀ {entry : Entry φ}, entry ∈ s.log ++ [.ack sequence] → entry ≠ .ack sequence →
      entry ∈ s.log := by
    intro entry hmem hne
    rcases List.mem_append.mp hmem with hmem | hmem
    · exact hmem
    · exact absurd (List.mem_singleton.mp hmem) hne
  refine ⟨?_, ?_, ?_, fun n image time hmem => hnumbered n image time (hold hmem nofun), ?_,
    fun hmem => hoffline (hold hmem nofun)⟩
  · rw [frames_append]
    exact (List.append_nil _).trans hsequences
  · have hfilter : unacknowledged (s.log ++ [.ack sequence]) =
        (unacknowledged s.log).filter (· ≠ sequence) := by
      rw [unacknowledged, List.foldl_append]
      rfl
    rw [hfilter, houtstanding]
    by_cases hzero : s.pendingSequence = 0
    · simp [hzero]
    · by_cases hsame : sequence = s.pendingSequence
      · simp [hsame, hzero]
      · simp [hsame, hzero, Ne.symm hsame]
  · simp only
    split
    · exact Nat.zero_le _
    · exact hbound
  · simp only
    split
    · exact fun hzero => absurd rfl hzero
    · exact fun hzero image time hmem => hsince hzero image time (hold hmem nofun)

theorem Flow.frame {s : State φ} (h : Flow s) (hnone : s.pendingSequence = 0)
    (hopen : s.socket.ready = .open) (socket : Socket) (image : φ) (time : ℕ) :
    Flow { s with
      socket := socket
      sentSequence := s.sentSequence + 1
      pendingSequence := s.sentSequence + 1
      pendingSince := time
      log := s.log ++ [.frame (s.sentSequence + 1) image time] } := by
  obtain ⟨hsequences, houtstanding, hbound, hnumbered, hsince, hoffline⟩ := h
  constructor
  · rw [frames_append, hsequences, List.range'_1_concat, Nat.add_comm 1]
    rfl
  · rw [unacknowledged, List.foldl_append]
    rw [unacknowledged, hnone] at houtstanding
    rw [houtstanding]
    rfl
  · exact le_rfl
  · intro sequence image' time' hmem
    rcases List.mem_append.mp hmem with hmem | hmem
    · exact Nat.le_succ_of_le (hnumbered sequence image' time' hmem)
    · obtain ⟨rfl, -, -⟩ := Entry.frame.inj (List.mem_singleton.mp hmem)
      exact le_rfl
  · intro _ image' time' hmem
    rcases List.mem_append.mp hmem with hmem | hmem
    · exact absurd (hnumbered _ image' time' hmem) (Nat.not_succ_le_self _)
    · exact (Entry.frame.inj (List.mem_singleton.mp hmem)).2.2
  · intro hmem
    rcases List.mem_append.mp hmem with hmem | hmem
    · exact absurd hopen (hoffline hmem)
    · cases List.mem_singleton.mp hmem

theorem Flow.run {s : State φ} (h : Flow s) (task : Task φ) : Flow (s.run task) :=
  h.congr rfl rfl rfl rfl fun hclosed =>
    @step_closed ⟨"", "", "", "", .user, .active⟩ {} s.socket hclosed .run

theorem Flow.close {s : State φ} (h : Flow s) : Flow s.close :=
  h.congr rfl rfl rfl rfl fun _ => Auth.close_ready s.socket

theorem Flow.move {s : State φ} (h : Flow s) (input : Auth.Input) :
    Flow (s.move initial access input) :=
  h.congr rfl rfl rfl rfl fun hclosed => step_closed hclosed input

theorem send_closed {s : Socket} (bufferedAmount : ℕ) (h : s.ready ≠ .open) :
    (Auth.send bufferedAmount s).ready ≠ .open := by
  rwa [Auth.send, if_pos h]

theorem subscribe_ready (s : Socket) : (Auth.subscribe s).ready = s.ready := by
  rw [Auth.subscribe]
  simp only
  split <;> rfl

theorem Flow.send {s : State φ} (h : Flow s) (bufferedAmount : ℕ) {entry : Entry φ}
    (hentry : entry.plain = true) : Flow (s.send bufferedAmount entry) := by
  rw [State.send]
  split
  · exact h.add (.inl hentry) (send_closed bufferedAmount)
  · exact h.congr rfl rfl rfl rfl (send_closed bufferedAmount)

/-- The account is offline: the viewer is told and the socket closed. -/
theorem Flow.leave {s : State φ} (h : Flow s) (bufferedAmount : ℕ) :
    Flow (s.send bufferedAmount .offline).close := by
  have hclosed : (s.send bufferedAmount .offline).close.socket.ready ≠ .open := Auth.close_ready _
  rw [State.close, State.send] at hclosed ⊢
  split
  · exact h.add (.inr ⟨rfl, hclosed⟩) fun _ => hclosed
  · exact h.congr rfl rfl rfl rfl fun _ => hclosed

theorem sendFrame_sent {s : State φ} (hnone : s.pendingSequence = 0) {bufferedAmount : ℕ}
    (hbuffer : bufferedAmount ≤ 64 * 1024) (hopen : s.socket.ready = .open) (image : φ) :
    s.sendFrame bufferedAmount image =
      { s with
        socket := Auth.send bufferedAmount s.socket
        sentSequence := s.sentSequence + 1
        pendingSequence := s.sentSequence + 1
        pendingSince := s.socket.now
        log := s.log ++ [.frame (s.sentSequence + 1) image s.socket.now] } := by
  have hsmall : bufferedAmount ≤ 2 * 1024 * 1024 := hbuffer.trans (by decide)
  rw [State.sendFrame, if_neg (fun h => h.1 hnone),
    if_neg (not_or.mpr ⟨not_not.mpr hnone, not_lt.mpr hbuffer⟩), State.send]
  simp only [hopen, hsmall, and_self, if_true]

theorem Flow.sendFrame {s : State φ} (h : Flow s) (bufferedAmount : ℕ) (image : φ)
    (hopen : s.socket.ready = .open) : Flow (s.sendFrame bufferedAmount image) := by
  by_cases hbusy : s.pendingSequence ≠ 0 ∨ 64 * 1024 < bufferedAmount
  · rw [State.sendFrame]
    split
    · exact h.close
    · exact h
  · rw [not_or, not_not, not_lt] at hbusy
    rw [sendFrame_sent hbusy.1 hbusy.2 hopen]
    exact h.frame hbusy.1 hopen _ image s.socket.now

theorem Flow.act {s : State φ} (h : Flow s) (bufferedAmount : ℕ) (task : Task φ)
    (hopen : s.socket.ready = .open) : Flow (s.act bufferedAmount task) := by
  cases task with
  | check => exact h
  | start =>
      rw [State.act]
      split
      · refine (@Flow.send φ s h bufferedAmount .loading rfl).congr rfl rfl rfl rfl fun hclosed => ?_
        rwa [subscribe_ready, subscribe_ready]
      · exact h.leave bufferedAmount
  | ack sequence => exact h.ack sequence
  | loading => exact h.send bufferedAmount rfl
  | frame image => exact (h.sendFrame bufferedAmount image hopen).congr rfl rfl rfl rfl id
  | error => exact (@Flow.send φ s h bufferedAmount .error rfl).close

theorem message_cases (oversized : Bool) (content : Option ℤ) (s : State φ) :
    ∃ messages windowStart,
      s.message oversized content = { s with messages := messages, windowStart := windowStart }.close ∨
      ∃ sequence, s.message oversized content =
        { s with messages := messages, windowStart := windowStart }.run (.ack sequence) := by
  unfold State.message
  generalize hwindow : (if 1000 ≤ s.socket.now - s.windowStart then
    { s with messages := 0, windowStart := s.socket.now } else s) = t
  obtain ⟨messages, windowStart, rfl⟩ : ∃ messages windowStart,
      t = { s with messages := messages, windowStart := windowStart } := by
    split at hwindow
    · exact ⟨_, _, hwindow.symm⟩
    · exact ⟨_, _, hwindow.symm⟩
  simp only
  split
  · exact ⟨messages, windowStart, .inl rfl⟩
  · split
    · exact ⟨messages + 1, windowStart, .inl rfl⟩
    · split
      · split
        · exact ⟨messages + 1, windowStart, .inr ⟨_, rfl⟩⟩
        · exact ⟨messages + 1, windowStart, .inl rfl⟩
      · exact ⟨messages + 1, windowStart, .inl rfl⟩

theorem Flow.step {s : State φ} (h : Flow s) (input : Input φ) :
    Flow (s.step initial access input) := by
  cases input with
  | message oversized content =>
      rw [State.step]
      obtain ⟨messages, windowStart, hclose | ⟨sequence, hrun⟩⟩ := message_cases oversized content s
      · rw [hclose]
        exact Flow.close (h.congr rfl rfl rfl rfl id)
      · rw [hrun]
        refine Flow.run ?_ (.ack sequence)
        exact h.congr rfl rfl rfl rfl id
  | timer => exact h.run .check
  | loading =>
      rw [State.step]
      split
      · exact h.run .loading
      · exact h
  | frame image =>
      rw [State.step]
      split
      · rw [State.frame]
        split
        · exact h
        · refine Flow.run ?_ (.frame image)
          exact h.congr rfl rfl rfl rfl id
      · exact h
  | error =>
      rw [State.step]
      split
      · exact h.run .error
      · exact h
  | status online bufferedAmount =>
      have honline : Flow { s with online := online } := h.congr rfl rfl rfl rfl id
      rw [State.step, State.status]
      simp only
      split
      · exact honline.leave bufferedAmount
      · exact honline
  | proceed bufferedAmount =>
      rw [State.step]
      split
      · rename_i task htask
        obtain ⟨action, hstarting, -⟩ := Option.bind_eq_some_iff.mp htask
        exact (h.move _).act bufferedAmount task (starting_spec hstarting).1
      · exact h.move _
  | closed =>
      rw [State.step]
      split
      · exact h
      · exact (@Flow.move φ initial access s h .closed).congr rfl rfl rfl rfl id
  | close => exact h.close
  | answer ok => exact h.move _
  | actionEnds ok => exact h.move _
  | change db now => exact h.move _
  | revoke revocation => exact h.move _

/-! ### The flag -/

structure Queued (s : State φ) : Prop where
  jobs : s.jobs.length = s.socket.actions
  flag : s.socket.ready = .open → s.pending = true → ∃ action image,
    Unstarted s.socket action ∧ s.jobs[action]? = some (.frame image)

theorem Queued.congr {s t : State φ} (h : Queued s) (hjobs : t.jobs = s.jobs)
    (hactions : t.socket.actions = s.socket.actions) (hpending : t.pending = s.pending)
    (hready : s.socket.ready ≠ .open → t.socket.ready ≠ .open)
    (hunstarted : ∀ action, Unstarted s.socket action → Unstarted t.socket action) : Queued t := by
  refine ⟨by rw [hjobs, hactions, h.jobs], fun hopen hflag => ?_⟩
  have hopen : s.socket.ready = .open := by_contra fun hclosed => hready hclosed hopen
  obtain ⟨action, image, hwaits, hjob⟩ := h.flag hopen (hpending ▸ hflag)
  exact ⟨action, image, hunstarted action hwaits, hjobs ▸ hjob⟩

/-- A closed socket, or a flag that is not set. -/
theorem Queued.down {s t : State φ} (h : Queued s) (hjobs : t.jobs = s.jobs)
    (hactions : t.socket.actions = s.socket.actions)
    (hdown : t.socket.ready ≠ .open ∨ t.pending = false) : Queued t := by
  refine ⟨by rw [hjobs, hactions, h.jobs], fun hopen hflag => ?_⟩
  rcases hdown with hclosed | hnone
  · exact absurd hopen hclosed
  · rw [hnone] at hflag
    cases hflag

/-- An action is turned away, or is the last one. -/
theorem run_cases (s : State φ) (task : Task φ) :
    (s.run task).socket.ready ≠ .open ∧ (s.run task).jobs = s.jobs ∧
      (s.run task).socket.actions = s.socket.actions ∨
    (s.run task).jobs = s.jobs ++ [task] ∧ (s.run task).socket.actions = s.socket.actions + 1 ∧
      Unstarted (s.run task).socket s.socket.actions := by
  unfold State.run Auth.runAction
  by_cases hopen : s.socket.ready = .open
  · by_cases hroom : s.socket.pending < 64
    · simp only [hopen, hroom, not_true, ne_eq, if_false, ge_iff_le, Nat.not_le.mpr hroom, and_self,
        if_true]
      refine .inr ⟨trivial, ?_, ?_⟩
      · split <;> rfl
      · split
        · exact .inr ⟨.reached, rfl, by simp⟩
        · exact .inl (List.mem_append_right _ List.mem_cons_self)
    · simp only [hopen, hroom, not_true, ne_eq, if_false, ge_iff_le, not_lt.mp hroom, and_false,
        if_true]
      exact .inl ⟨Auth.close_ready _, trivial, Auth.close_actions _⟩
  · simp only [hopen, ne_eq, not_false_eq_true, if_true, false_and, if_false]
    exact .inl ⟨trivial, trivial, trivial⟩

theorem Queued.run {s : State φ} (h : Queued s) (task : Task φ) : Queued (s.run task) := by
  rcases run_cases s task with ⟨hclosed, hjobs, hactions⟩ | ⟨hjobs, hactions, -⟩
  · exact h.down hjobs hactions (.inl hclosed)
  · refine ⟨by rw [hjobs, hactions, List.length_append, h.jobs]; rfl, fun hopen hflag => ?_⟩
    have hopen : s.socket.ready = .open := by_contra fun hclosed =>
      @step_closed ⟨"", "", "", "", .user, .active⟩ {} s.socket hclosed .run hopen
    obtain ⟨action, image, hwaits, hjob⟩ := h.flag hopen hflag
    refine ⟨action, image, hwaits.runAction, ?_⟩
    rw [hjobs, List.getElem?_append_left (List.getElem?_eq_some_iff.mp hjob).1]
    exact hjob

theorem send_fields (bufferedAmount : ℕ) (s : Socket) :
    (Auth.send bufferedAmount s).actions = s.actions ∧
      (Auth.send bufferedAmount s).current = s.current ∧
      (Auth.send bufferedAmount s).queue = s.queue := by
  rw [Auth.send]
  split
  · exact ⟨rfl, rfl, rfl⟩
  · split
    · exact ⟨Auth.close_actions s, Auth.close_current s, Auth.close_queue s⟩
    · exact ⟨rfl, rfl, rfl⟩

theorem subscribe_fields (s : Socket) : (Auth.subscribe s).actions = s.actions ∧
    (Auth.subscribe s).current = s.current ∧ (Auth.subscribe s).queue = s.queue := by
  rw [Auth.subscribe]
  simp only
  split <;> exact ⟨rfl, rfl, rfl⟩

theorem Queued.send {s : State φ} (h : Queued s) (bufferedAmount : ℕ) (entry : Entry φ) :
    Queued (s.send bufferedAmount entry) := by
  obtain ⟨hactions, hcurrent, hqueue⟩ := send_fields bufferedAmount s.socket
  exact h.congr rfl hactions rfl (send_closed bufferedAmount)
    fun action hwaits => hwaits.congr hcurrent hqueue

theorem Queued.close {s : State φ} (h : Queued s) : Queued s.close :=
  h.down rfl (Auth.close_actions s.socket) (.inl (Auth.close_ready s.socket))

theorem Queued.act {s : State φ} (h : Queued s) (bufferedAmount : ℕ) {task : Task φ}
    (htask : ∀ image, task ≠ .frame image) : Queued (s.act bufferedAmount task) := by
  cases task with
  | check => exact h
  | start =>
      rw [State.act]
      split
      · refine (h.send bufferedAmount .loading).congr rfl ?_ rfl (fun hclosed => ?_)
          fun action hwaits => ?_
        · exact ((subscribe_fields _).1.trans (subscribe_fields _).1)
        · rwa [subscribe_ready, subscribe_ready]
        · exact hwaits.congr ((subscribe_fields _).2.1.trans (subscribe_fields _).2.1)
            ((subscribe_fields _).2.2.trans (subscribe_fields _).2.2)
      · exact (h.send bufferedAmount .offline).close
  | ack sequence => exact h.congr rfl rfl rfl id fun _ => id
  | loading => exact h.send bufferedAmount .loading
  | frame image => exact absurd rfl (htask image)
  | error => exact (h.send bufferedAmount .error).close

/-- A frame takes its flag down. -/
theorem act_frame (s : State φ) (bufferedAmount : ℕ) (image : φ) :
    (s.act bufferedAmount (.frame image)).pending = false ∧
      (s.act bufferedAmount (.frame image)).jobs = s.jobs ∧
      (s.act bufferedAmount (.frame image)).socket.actions = s.socket.actions := by
  refine ⟨rfl, ?_⟩
  rw [State.act, State.sendFrame]
  split
  · exact ⟨rfl, Auth.close_actions s.socket⟩
  · split
    · exact ⟨rfl, rfl⟩
    · exact ⟨rfl, (send_fields bufferedAmount s.socket).1⟩

theorem proceed_fields (access : Access) (job : Auth.Job) (s : Socket) :
    (Auth.proceed access job s).actions = s.actions ∧ (Auth.proceed access job s).now = s.now := by
  have hact : (Auth.act job.action s).actions = s.actions ∧ (Auth.act job.action s).now = s.now := by
    rw [Auth.act]
    split <;> exact ⟨rfl, rfl⟩
  have hdeny : (Auth.deny job.action s).actions = s.actions ∧
      (Auth.deny job.action s).now = s.now := by
    rw [Auth.deny, Auth.close_eq]
    exact ⟨rfl, rfl⟩
  rw [Auth.proceed.eq_def]
  split
  · exact ⟨rfl, rfl⟩
  · rw [Auth.grant]
    split
    · exact hdeny
    · split
      · exact hact
      · exact ⟨rfl, rfl⟩
  · exact hdeny
  · exact hact
  · exact hdeny
  all_goals exact ⟨rfl, rfl⟩

theorem move_proceed_fields (s : State φ) :
    (s.move initial access .proceed).socket.actions = s.socket.actions ∧
      (s.move initial access .proceed).socket.now = s.socket.now := by
  rw [State.move, Auth.step]
  split
  · exact ⟨rfl, rfl⟩
  · exact proceed_fields access _ s.socket

theorem answer_actions (job : Auth.Job) (ok : Bool) (s : Socket) :
    (Auth.answer initial access job ok s).actions = s.actions := by
  rw [Auth.answer.eq_def]
  split
  · split <;> rfl
  · split <;> rfl
  · rfl

theorem actionEnds_actions (job : Auth.Job) (ok : Bool) (s : Socket) :
    (Auth.actionEnds job ok s).actions = s.actions := by
  rw [Auth.actionEnds.eq_def]
  split
  · cases ok with
    | true => rfl
    | false => exact Auth.close_actions _
  · rfl

theorem starting_unstarted {s : State φ} {action : ℕ} (h : Unstarted s.socket action) :
    (s.move initial access .proceed).socket.ready ≠ .open ∨
      Unstarted (s.move initial access .proceed).socket action ∨
      s.starting initial access = some action := by
  unfold State.starting State.move
  rw [Auth.step]
  cases hjob : s.socket.current with
  | none => exact .inr (.inl h)
  | some job =>
      rcases @proceed_unstarted access s.socket job hjob action h with hclosed | hwaits | ⟨hphase, hacting⟩
      · exact .inl hclosed
      · exact .inr (.inl hwaits)
      · refine .inr (.inr ?_)
        obtain ⟨number, phase⟩ := job
        simp only [hacting]
        split
        · rename_i heq
          obtain rfl := congrArg Auth.Job.phase (Option.some.inj heq)
          exact absurd rfl hphase
        · rename_i heq hnot
          exact congrArg (Option.map Auth.Job.action) heq.symm
        · rename_i hnone
          exact (hnone action rfl).elim

theorem Queued.advance {s : State φ} (h : Queued s)
    (hstarting : ∀ action image, s.starting initial access = some action →
      s.jobs[action]? ≠ some (.frame image)) : Queued (s.move initial access .proceed) := by
  refine ⟨by rw [(move_proceed_fields s).1]; exact h.jobs, fun hopen hflag => ?_⟩
  have hbefore : s.socket.ready = .open := by_contra fun hclosed =>
    @step_closed initial access s.socket hclosed .proceed hopen
  obtain ⟨action, image, hwaits, hjob⟩ := h.flag hbefore hflag
  rcases @starting_unstarted φ initial access s action hwaits with hclosed | hwaits | hstart
  · exact absurd hopen hclosed
  · exact ⟨action, image, hwaits, hjob⟩
  · exact absurd hjob (hstarting action image hstart)

theorem Queued.proceed {s : State φ} (h : Queued s) (bufferedAmount : ℕ) :
    Queued (s.step initial access (.proceed bufferedAmount)) := by
  rw [State.step]
  cases htask : (s.starting initial access).bind (s.jobs[·]?) with
  | none =>
      refine h.advance fun action image hstarting hjob => ?_
      rw [hstarting, Option.bind_some, hjob] at htask
      cases htask
  | some task =>
      have hother : (∀ image, task ≠ .frame image) → Queued (s.move initial access .proceed) := by
        intro hne
        refine h.advance fun action image hstarting hjob => ?_
        rw [hstarting, Option.bind_some, hjob] at htask
        exact hne image (Option.some.inj htask).symm
      cases task with
      | frame image =>
          obtain ⟨hpending, hjobs, hactions⟩ :=
            act_frame (s.move initial access .proceed) bufferedAmount image
          exact h.down hjobs (hactions.trans (move_proceed_fields s).1) (.inr hpending)
      | _ => exact (hother nofun).act bufferedAmount nofun

theorem Queued.status {s : State φ} (h : Queued s) (online : Bool) (bufferedAmount : ℕ) :
    Queued (s.status online bufferedAmount) := by
  have honline : Queued { s with online := online } := h.congr rfl rfl rfl id fun _ => id
  rw [State.status]
  simp only
  split
  · exact (honline.send bufferedAmount .offline).close
  · exact honline

theorem Queued.frame {s : State φ} (h : Queued s) (image : φ) : Queued (s.frame image) := by
  rw [State.frame]
  split
  · exact h
  · rename_i hfree
    rcases run_cases { s with pending := true } (.frame image) with ⟨hclosed, hjobs, hactions⟩ |
      ⟨hjobs, hactions, hwaits⟩
    · exact h.down hjobs hactions (.inl hclosed)
    · refine ⟨by rw [hjobs, hactions, List.length_append, h.jobs]; rfl, fun _ _ =>
        ⟨s.socket.actions, image, hwaits, ?_⟩⟩
      rw [hjobs, ← h.jobs]
      exact List.getElem?_concat_length

theorem Queued.step {s : State φ} (h : Queued s) (input : Input φ) :
    Queued (s.step initial access input) := by
  cases input with
  | message oversized content =>
      rw [State.step]
      obtain ⟨messages, windowStart, hclose | ⟨sequence, hrun⟩⟩ := message_cases oversized content s
      · rw [hclose]
        exact Queued.close (h.congr rfl rfl rfl id fun _ => id)
      · rw [hrun]
        refine Queued.run ?_ (.ack sequence)
        exact h.congr rfl rfl rfl id fun _ => id
  | timer => exact h.run .check
  | loading =>
      rw [State.step]
      split
      · exact h.run .loading
      · exact h
  | frame image =>
      rw [State.step]
      split
      · exact h.frame image
      · exact h
  | error =>
      rw [State.step]
      split
      · exact h.run .error
      · exact h
  | status online bufferedAmount => exact h.status online bufferedAmount
  | proceed bufferedAmount => exact h.proceed bufferedAmount
  | answer ok =>
      rw [State.step, State.move, Auth.step]
      split
      · exact h
      · rename_i job hjob
        refine h.congr rfl (answer_actions job ok s.socket) rfl (fun hclosed => ?_)
          fun action hwaits => answer_unstarted hjob hwaits ok
        have hstep := @step_closed initial access s.socket hclosed (.answer ok)
        rw [Auth.step, hjob] at hstep
        exact hstep
  | actionEnds ok =>
      rw [State.step, State.move, Auth.step]
      split
      · exact h
      · rename_i job hjob
        refine h.congr rfl (actionEnds_actions job ok s.socket) rfl (fun hclosed => ?_)
          fun action hwaits => actionEnds_unstarted hjob hwaits ok
        have hstep := @step_closed initial access s.socket hclosed (.actionEnds ok)
        rw [Auth.step, hjob] at hstep
        exact hstep
  | change db now => exact h.congr rfl rfl rfl id fun _ hwaits => hwaits.congr rfl rfl
  | revoke revocation =>
      rw [State.step, State.move, Auth.step]
      split
      · exact h.down rfl (Auth.close_actions _) (.inl (Auth.close_ready _))
      · exact h
  | close => exact h.close
  | closed =>
      rw [State.step]
      split
      · exact h
      · rename_i hclosed
        refine h.down rfl ?_ (.inl ?_)
        · rw [State.move, Auth.step, if_neg hclosed]
          rfl
        · rw [State.move, Auth.step, if_neg hclosed]
          simp [Auth.onClose]

/-! ### Steps -/

/-- What every step of the queue keeps, the whole socket keeps. -/
theorem step_socket {P : Socket → Prop}
    (hP : ∀ t input, P t → P (Auth.step initial access t input)) {s : State φ} (h : P s.socket)
    (input : Input φ) : P (s.step initial access input).socket := by
  have hsend : ∀ (t : State φ) bufferedAmount entry, P t.socket →
      P (t.send bufferedAmount entry).socket := fun t bufferedAmount _ => hP t.socket (.send bufferedAmount)
  have hclose : ∀ t : State φ, P t.socket → P t.close.socket := fun t => hP t.socket .close
  have hrun : ∀ (t : State φ) task, P t.socket → P (t.run task).socket := fun t _ => hP t.socket .run
  cases input with
  | message oversized content =>
      rw [State.step]
      obtain ⟨messages, windowStart, heq | ⟨sequence, heq⟩⟩ := message_cases oversized content s
      · rw [heq]
        exact hclose _ h
      · rw [heq]
        exact hrun _ _ h
  | timer => exact hrun s .check h
  | loading =>
      rw [State.step]
      split
      · exact hrun s .loading h
      · exact h
  | frame image =>
      rw [State.step]
      split
      · rw [State.frame]
        split
        · exact h
        · exact hrun _ _ h
      · exact h
  | error =>
      rw [State.step]
      split
      · exact hrun s .error h
      · exact h
  | status online bufferedAmount =>
      rw [State.step, State.status]
      simp only
      split
      · exact hclose _ (hsend _ bufferedAmount .offline h)
      · exact h
  | proceed bufferedAmount =>
      have hmove : P (s.move initial access .proceed).socket := hP s.socket .proceed h
      rw [State.step]
      split
      · rename_i task htask
        cases task with
        | check => exact hmove
        | start =>
            rw [State.act]
            split
            · exact hP _ .subscribe (hP _ .subscribe (hsend _ bufferedAmount .loading hmove))
            · exact hclose _ (hsend _ bufferedAmount .offline hmove)
        | ack sequence => exact hmove
        | loading => exact hsend _ bufferedAmount .loading hmove
        | frame image =>
            rw [State.act, State.sendFrame]
            split
            · exact hclose _ hmove
            · split
              · exact hmove
              · exact hP _ (.send bufferedAmount) hmove
        | error => exact hclose _ (hsend _ bufferedAmount .error hmove)
      · exact hmove
  | answer ok => exact hP s.socket (.answer ok) h
  | actionEnds ok => exact hP s.socket (.actionEnds ok) h
  | change db now => exact hP s.socket (.change db now) h
  | revoke revocation => exact hP s.socket (.revoke revocation) h
  | close => exact hP s.socket .close h
  | closed =>
      rw [State.step]
      split
      · exact h
      · exact hP s.socket .closed h

theorem step_down {s : State φ} (h : s.socket.ready ≠ .open) (input : Input φ) :
    (s.step initial access input).socket.ready ≠ .open :=
  @step_socket φ initial access (fun t => t.ready ≠ .open) (fun _ i ht => step_closed ht i) s h input

/-- A socket that is not open sends nothing. -/
theorem step_silent {s : State φ} (h : s.socket.ready ≠ .open) (input : Input φ) :
    (s.step initial access input).log = s.log := by
  cases input with
  | message oversized content =>
      rw [State.step]
      obtain ⟨messages, windowStart, heq | ⟨sequence, heq⟩⟩ := message_cases oversized content s
      · rw [heq]
        rfl
      · rw [heq]
        rfl
  | frame image =>
      rw [State.step]
      split
      · rw [State.frame, if_pos (.inr h)]
      · rfl
  | status online bufferedAmount =>
      rw [State.step, State.status]
      simp only
      split
      · exact if_neg fun hopen => h hopen.1
      · rfl
  | proceed bufferedAmount =>
      rw [State.step]
      split
      · rename_i task htask
        obtain ⟨action, hstarting, -⟩ := Option.bind_eq_some_iff.mp htask
        exact absurd (starting_spec hstarting).1 (@step_closed initial access s.socket h .proceed)
      · rfl
  | loading =>
      rw [State.step]
      split <;> rfl
  | error =>
      rw [State.step]
      split <;> rfl
  | closed =>
      rw [State.step]
      split <;> rfl
  | _ => rfl

/-- The step of an action that starts. -/
theorem step_starting {s : State φ} {action : ℕ} {task : Task φ}
    (hstarting : s.starting initial access = some action) (htask : s.jobs[action]? = some task)
    (bufferedAmount : ℕ) : s.step initial access (.proceed bufferedAmount) =
      (s.move initial access .proceed).act bufferedAmount task := by
  have hbind : (s.starting initial access).bind (s.jobs[·]?) = some task := by
    rw [hstarting]
    exact htask
  rw [State.step]
  simp only [hbind]

theorem act_fields (s : State φ) (bufferedAmount : ℕ) (task : Task φ) :
    (s.act bufferedAmount task).jobs = s.jobs ∧
      (s.act bufferedAmount task).socket.current = s.socket.current ∧
      (s.act bufferedAmount task).socket.queue = s.socket.queue := by
  obtain ⟨-, hcurrent, hqueue⟩ := send_fields bufferedAmount s.socket
  have hclosed := fun t : Socket => (⟨Auth.close_current t, Auth.close_queue t⟩ :
    t.close.current = t.current ∧ t.close.queue = t.queue)
  cases task with
  | check => exact ⟨rfl, rfl, rfl⟩
  | start =>
      rw [State.act]
      split
      · exact ⟨rfl,
          (subscribe_fields _).2.1.trans ((subscribe_fields _).2.1.trans hcurrent),
          (subscribe_fields _).2.2.trans ((subscribe_fields _).2.2.trans hqueue)⟩
      · exact ⟨rfl, (hclosed _).1.trans hcurrent, (hclosed _).2.trans hqueue⟩
  | ack sequence => exact ⟨rfl, rfl, rfl⟩
  | loading => exact ⟨rfl, hcurrent, hqueue⟩
  | frame image =>
      rw [State.act, State.sendFrame]
      split
      · exact ⟨rfl, hclosed s.socket⟩
      · split
        · exact ⟨rfl, rfl, rfl⟩
        · exact ⟨rfl, hcurrent, hqueue⟩
  | error => exact ⟨rfl, (hclosed _).1.trans hcurrent, (hclosed _).2.trans hqueue⟩

theorem run_jobs (s : State φ) (task : Task φ) : s.jobs <+: (s.run task).jobs := by
  rcases run_cases s task with ⟨-, hjobs, -⟩ | ⟨hjobs, -⟩
  · rw [hjobs]
  · rw [hjobs]
    exact List.prefix_append _ _

/-- An action that waits goes on waiting, unless it starts or the socket is closed. -/
theorem step_unstarted {s : State φ} {action : ℕ} (h : Unstarted s.socket action)
    (input : Input φ) : (s.step initial access input).socket.ready ≠ .open ∨
      Unstarted (s.step initial access input).socket action ∨
      s.starting initial access = some action ∧ ∃ bufferedAmount, input = .proceed bufferedAmount := by
  have hclose : ∀ t : State φ, t.close.socket.ready ≠ .open := fun t => Auth.close_ready t.socket
  have hrun : ∀ t : State φ, t.socket = s.socket → ∀ task, Unstarted (t.run task).socket action :=
    fun t ht task => Unstarted.runAction (ht ▸ h)
  cases input with
  | message oversized content =>
      rw [State.step]
      obtain ⟨messages, windowStart, heq | ⟨sequence, heq⟩⟩ := message_cases oversized content s
      · rw [heq]
        exact .inl (hclose _)
      · rw [heq]
        exact .inr (.inl (hrun { s with messages := messages, windowStart := windowStart } rfl
          (.ack sequence)))
  | timer => exact .inr (.inl (hrun s rfl .check))
  | loading =>
      rw [State.step]
      split
      · exact .inr (.inl (hrun s rfl .loading))
      · exact .inr (.inl h)
  | frame image =>
      rw [State.step]
      split
      · rw [State.frame]
        split
        · exact .inr (.inl h)
        · exact .inr (.inl (hrun { s with pending := true } rfl (.frame image)))
      · exact .inr (.inl h)
  | error =>
      rw [State.step]
      split
      · exact .inr (.inl (hrun s rfl .error))
      · exact .inr (.inl h)
  | status online bufferedAmount =>
      rw [State.step, State.status]
      simp only
      split
      · exact .inl (hclose _)
      · exact .inr (.inl h)
  | proceed bufferedAmount =>
      rcases @starting_unstarted φ initial access s action h with hclosed | hwaits | hstart
      · rw [State.step]
        split
        · rename_i task htask
          obtain ⟨_, hstarting, -⟩ := Option.bind_eq_some_iff.mp htask
          exact absurd (starting_spec hstarting).1 hclosed
        · exact .inl hclosed
      · refine .inr (.inl ?_)
        rw [State.step]
        split
        · rename_i task htask
          obtain ⟨-, hcurrent, hqueue⟩ :=
            act_fields (s.move initial access .proceed) bufferedAmount task
          exact hwaits.congr hcurrent hqueue
        · exact hwaits
      · exact .inr (.inr ⟨hstart, bufferedAmount, rfl⟩)
  | answer ok =>
      rw [State.step, State.move, Auth.step]
      split
      · exact .inr (.inl h)
      · rename_i job hjob
        exact .inr (.inl (answer_unstarted hjob h ok))
  | actionEnds ok =>
      rw [State.step, State.move, Auth.step]
      split
      · exact .inr (.inl h)
      · rename_i job hjob
        exact .inr (.inl (actionEnds_unstarted hjob h ok))
  | change db now => exact .inr (.inl h)
  | revoke revocation =>
      rw [State.step, State.move, Auth.step]
      split
      · exact .inl (Auth.close_ready _)
      · exact .inr (.inl h)
  | close => exact .inl (hclose s)
  | closed =>
      rw [State.step]
      split
      · exact .inr (.inl h)
      · rename_i hclosed
        refine .inl ?_
        rw [State.move, Auth.step, if_neg hclosed]
        simp [Auth.onClose]

/-- Over a run, an action that waits starts, or waits on, or the socket is closed. -/
theorem run_unstarted {s : State φ} {action : ℕ} (h : Unstarted s.socket action)
    (inputs : List (Input φ)) :
    (AfkClient.run (State.step initial access) s inputs).socket.ready ≠ .open ∨
      Unstarted (AfkClient.run (State.step initial access) s inputs).socket action ∨
      ∃ before bufferedAmount after, inputs = before ++ .proceed bufferedAmount :: after ∧
        (AfkClient.run (State.step initial access) s before).starting initial access =
          some action := by
  induction inputs generalizing s with
  | nil => exact .inr (.inl h)
  | cons input inputs ih =>
      rw [run_cons]
      rcases @step_unstarted φ initial access s action h input with
        hclosed | hwaits | ⟨hstarting, bufferedAmount, rfl⟩
      · left
        exact run_of_invariant (P := fun t : State φ => t.socket.ready ≠ .open)
          (fun _ i ht => step_down ht i) hclosed inputs
      · rcases ih hwaits with hclosed | hwaits | ⟨before, bufferedAmount, after, rfl, hstarting⟩
        · exact .inl hclosed
        · exact .inr (.inl hwaits)
        · exact .inr (.inr ⟨input :: before, bufferedAmount, after, rfl, hstarting⟩)
      · exact .inr (.inr ⟨[], bufferedAmount, inputs, rfl, hstarting⟩)

theorem step_jobs (s : State φ) (input : Input φ) : s.jobs <+: (s.step initial access input).jobs := by
  cases input with
  | message oversized content =>
      rw [State.step]
      obtain ⟨messages, windowStart, heq | ⟨sequence, heq⟩⟩ := message_cases oversized content s
      · rw [heq]
        exact List.prefix_rfl
      · rw [heq]
        exact run_jobs _ _
  | timer => exact run_jobs s _
  | loading =>
      rw [State.step]
      split
      · exact run_jobs s _
      · exact List.prefix_rfl
  | frame image =>
      rw [State.step]
      split
      · rw [State.frame]
        split
        · exact List.prefix_rfl
        · exact run_jobs { s with pending := true } _
      · exact List.prefix_rfl
  | error =>
      rw [State.step]
      split
      · exact run_jobs s _
      · exact List.prefix_rfl
  | status online bufferedAmount =>
      rw [State.step, State.status]
      simp only
      split <;> exact List.prefix_rfl
  | proceed bufferedAmount =>
      rw [State.step]
      split
      · rename_i task htask
        rw [(act_fields _ bufferedAmount task).1]
        exact List.prefix_rfl
      · exact List.prefix_rfl
  | closed =>
      rw [State.step]
      split <;> exact List.prefix_rfl
  | _ => exact List.prefix_rfl

theorem run_jobs_grow (s : State φ) (inputs : List (Input φ)) :
    s.jobs <+: (AfkClient.run (State.step initial access) s inputs).jobs :=
  run_of_invariant (P := fun t : State φ => s.jobs <+: t.jobs)
    (fun t input ht => ht.trans (step_jobs t input)) List.prefix_rfl inputs

/-! ### The viewer -/

structure Sound (s : State φ) : Prop where
  flow : Flow s
  queued : Queued s
  quiet : Auth.Quiet s.socket

theorem Sound.init (db : Database) (now : ℕ) (online : Bool) :
    Sound (State.init db now online : State φ) where
  flow := Flow.run ⟨rfl, rfl, Nat.le_refl 0, fun _ _ _ h => absurd h List.not_mem_nil,
    fun h => absurd rfl h, fun h => absurd h List.not_mem_nil⟩ .start
  queued := Queued.run ⟨rfl, fun _ h => Bool.noConfusion h⟩ .start
  quiet :=
    have hfresh : Auth.Quiet { db, now } :=
      ⟨fun _ h => (nomatch h), fun before e after h => by cases before <;> cases h⟩
    @Auth.Quiet.step ⟨"", "", "", "", .user, .active⟩ {} _ hfresh.subscribe.subscribe .run

theorem Sound.step {s : State φ} (h : Sound s) (input : Input φ) :
    Sound (s.step initial access input) :=
  ⟨h.flow.step input, h.queued.step input, step_socket (fun _ i ht => ht.step i) h.quiet input⟩

/-- A viewer that is gone, or that was turned away, gets no more frames. -/
theorem Sound.silent {s : State φ} (h : Sound s)
    (hgone : .offline ∈ s.log ∨ (∃ action, .failed action ∈ s.socket.log) ∨ s.socket.ready ≠ .open)
    (input : Input φ) : (s.step initial access input).log = s.log := by
  rcases hgone with hoffline | ⟨action, hfailed⟩ | hclosed
  · exact step_silent (h.flow.offline hoffline) input
  · exact step_silent (h.quiet.ended _ hfailed trivial) input
  · exact step_silent hclosed input

theorem Sound.outstanding {s : State φ} (h : Sound s) (sequence : ℕ) :
    sequence ∈ unacknowledged s.log ↔ s.pendingSequence ≠ 0 ∧ sequence = s.pendingSequence := by
  rw [h.flow.outstanding]
  split
  · rename_i hnone
    exact ⟨fun hmem => (nomatch hmem), fun hsome => absurd hnone hsome.1⟩
  · rename_i hsome
    rw [List.mem_singleton]
    exact ⟨fun heq => ⟨hsome, heq⟩, fun heq => heq.2⟩

theorem act_other {s : State φ} {sequence : ℕ}
    (h : s.pendingSequence ≠ 0 → sequence ≠ s.pendingSequence) (bufferedAmount : ℕ) :
    s.act bufferedAmount (.ack sequence) = { s with log := s.log ++ [.ack sequence] } := by
  have hpending : (if sequence = s.pendingSequence then 0 else s.pendingSequence) =
      s.pendingSequence := by
    split
    · rename_i heq
      by_contra hne
      exact h (fun hzero => hne hzero.symm) heq
    · rfl
  rw [State.act, hpending]


/-- The live camera sends one frame at a time, in order, and a viewer that acknowledges them does
not stall. -/
theorem viewer_flow (initial : SessionContext) (access : Access) (db : Database) (now : ℕ)
    (online : Bool) (inputs : List (Input φ)) :
    let step : State φ → Input φ → State φ := State.step initial access
    let s := AfkClient.run step (State.init db now online) inputs
    (unacknowledged s.log).length ≤ 1 ∧
    frames s.log = List.range' 1 (frames s.log).length ∧
    (.offline ∈ s.log ∨ (∃ action, .failed action ∈ s.socket.log) ∨ s.socket.ready ≠ .open →
      ∀ input, frames (step s input).log = frames s.log) ∧
    (∀ action task bufferedAmount, s.starting initial access = some action →
      s.jobs[action]? = some task →
      let t := step s (.proceed bufferedAmount)
      (∀ sequence, task = .ack sequence → sequence ∉ unacknowledged s.log →
        t = { s.move initial access .proceed with log := s.log ++ [.ack sequence] }) ∧
      (∀ image, task = .frame image →
        (∀ sequence sent time, sequence ∈ unacknowledged s.log →
          .frame sequence sent time ∈ s.log → 15000 < s.socket.now - time →
          t.socket.ready ≠ .open ∧ t.log = s.log) ∧
        (unacknowledged s.log = [] → bufferedAmount ≤ 64 * 1024 →
          t.log = s.log ++ [.frame ((frames s.log).length + 1) image s.socket.now]))) ∧
    (s.subscribed = true → s.socket.ready = .open →
      (∀ action sent, s.jobs[action]? = some (.frame sent) → ¬ Unstarted s.socket action) →
      ∀ image more,
        let t := AfkClient.run step (step s (.frame image)) more
        t.socket.ready ≠ .open ∨
          t.jobs[s.jobs.length]? = some (.frame image) ∧ Unstarted t.socket s.jobs.length ∨
          ∃ before bufferedAmount after, more = before ++ .proceed bufferedAmount :: after ∧
            let u := AfkClient.run step (step s (.frame image)) before
            u.starting initial access = some s.jobs.length ∧
              u.jobs[s.jobs.length]? = some (.frame image)) := by
  intro step s
  have hsound : Sound s := run_of_invariant (fun _ input h => h.step input) (Sound.init db now online) inputs
  have hlength : (frames s.log).length = s.sentSequence := by
    rw [hsound.flow.sequences, List.length_range']
  refine ⟨?_, ?_, fun hgone input => by rw [hsound.silent hgone input], ?_, ?_⟩
  · rw [hsound.flow.outstanding]
    split
    · exact Nat.zero_le 1
    · exact Nat.le_refl 1
  · rw [hlength]
    exact hsound.flow.sequences
  · intro action task bufferedAmount hstarting htask t
    have ht : t = (s.move initial access .proceed).act bufferedAmount task :=
      step_starting hstarting htask bufferedAmount
    have hopen := (starting_spec hstarting).1
    have hnow := (@move_proceed_fields φ initial access s).2
    refine ⟨?_, ?_⟩
    · rintro sequence rfl hother
      rw [ht]
      refine act_other (fun hsome heq => hother ?_) bufferedAmount
      exact (hsound.outstanding sequence).mpr ⟨hsome, heq⟩
    · rintro image rfl
      refine ⟨fun sequence sent time hmem hframe hlate => ?_, fun hnone hbuffer => ?_⟩
      · obtain ⟨hsome, rfl⟩ := (hsound.outstanding sequence).mp hmem
        rw [hsound.flow.since hsome sent time hframe, ← hnow] at hlate
        rw [ht, State.act, State.sendFrame, if_pos ⟨hsome, hlate⟩]
        exact ⟨Auth.close_ready _, rfl⟩
      · have hfree : s.pendingSequence = 0 := by
          by_contra hsome
          have hmem := (hsound.outstanding s.pendingSequence).mpr ⟨hsome, rfl⟩
          rw [hnone] at hmem
          exact List.not_mem_nil hmem
        have hsent := sendFrame_sent (s := s.move initial access .proceed) hfree hbuffer hopen image
        rw [ht, State.act, hsent, hlength, ← hnow]
        rfl
  · intro hsubscribed hopen hidle image more t
    have hflag : s.pending = false := by
      by_contra hset
      obtain ⟨action, sent, hwaits, hjob⟩ := hsound.queued.flag hopen (by simpa using hset)
      exact hidle action sent hjob hwaits
    have harrives : step s (.frame image) = { s with pending := true }.run (.frame image) := by
      change (if s.subscribed then s.frame image else s) = _
      rw [if_pos hsubscribed, State.frame, if_neg]
      rintro (hset | hclosed)
      · rw [hflag] at hset
        cases hset
      · exact hclosed hopen
    rcases run_cases { s with pending := true } (.frame image) with ⟨hclosed, -⟩ | ⟨hjobs, -, hwaits⟩
    · left
      refine run_of_invariant (P := fun t : State φ => t.socket.ready ≠ .open)
        (fun _ i ht => step_down ht i) ?_ more
      rw [harrives]
      exact hclosed
    · rw [← harrives] at hjobs hwaits
      have hjob : ∀ inputs,
          (AfkClient.run step (step s (.frame image)) inputs).jobs[s.jobs.length]? =
            some (.frame image) := by
        intro inputs
        have hprefix := @run_jobs_grow _ initial access (step s (.frame image)) inputs
        rw [hjobs] at hprefix
        obtain ⟨rest, hrest⟩ := hprefix
        rw [← hrest]
        simp
      have hwaits : Unstarted (step s (.frame image)).socket s.jobs.length := by
        rw [hsound.queued.jobs]
        exact hwaits
      rcases @run_unstarted _ initial access _ _ hwaits more with
        hclosed | hwaits | ⟨before, bufferedAmount, after, hmore, hstarting⟩
      · exact .inl hclosed
      · exact .inr (.inl ⟨hjob more, hwaits⟩)
      · exact .inr (.inr ⟨before, bufferedAmount, after, hmore, hstarting, hjob before⟩)

-- A frame, its acknowledgement and the next frame.
example :
    let db : Database :=
      ⟨Table.empty.insert ⟨"u", "ann", "hash", .user, .active⟩,
        Table.empty.insert ⟨"s", "u", "token", 100⟩, [⟨"u", "a"⟩]⟩
    let turn : List (Input Unit) :=
      [.proceed 0, .answer true, .proceed 0, .answer true, .proceed 0, .actionEnds true, .proceed 0]
    (AfkClient.run
      (State.step ⟨"s", "token", "u", "ann", .user, .active⟩ { accountId := some "a" })
      (State.init db 0 true)
      (turn ++ [.frame ()] ++ turn ++ [.message false (some 1)] ++ turn ++ [.frame ()] ++ turn)).log =
        [.loading, .frame 1 () 0, .ack 1, .frame 2 () 0] := by
  rfl

end AfkClient.CameraSocket

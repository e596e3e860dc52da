import AfkClient.Verification.Authorization.Socket

/-! Actions run in their order, one at a time, and every subscription is ended once. -/

namespace AfkClient.Auth

variable {initial : SessionContext} {access : Access} {s t : Socket}

def started (log : List Event) : List ℕ := log.filterMap fun
  | .started action => some action
  | _ => none

def finished (log : List Event) : List ℕ := log.filterMap fun
  | .finished action => some action
  | _ => none

def called (log : List Event) : List ℕ := log.filterMap fun
  | .called unsubscribe => some unsubscribe
  | _ => none

@[simp] theorem started_append (log more : List Event) :
    started (log ++ more) = started log ++ started more := List.filterMap_append

@[simp] theorem finished_append (log more : List Event) :
    finished (log ++ more) = finished log ++ finished more := List.filterMap_append

@[simp] theorem called_append (log more : List Event) :
    called (log ++ more) = called log ++ called more := List.filterMap_append

/-! ### The order of the actions -/

/-- The actions that have not ended. -/
def Socket.waiting (s : Socket) : List ℕ := (s.current.map Job.action).toList ++ s.queue

/-- When an action starts, all that have started before are finished. -/
def Serial (log : List Event) : Prop :=
  ∀ before b after, log = before ++ .started b :: after → ∀ a ∈ started before, a ∈ finished before

structure Ordered (s : Socket) : Prop where
  pending : s.pending = s.waiting.length
  bound : s.pending ≤ 64
  idle : s.current = none → s.queue = []
  sorted : s.waiting.Pairwise (· < ·)
  below : ∀ a ∈ s.waiting, a < s.actions
  past : ∀ a ∈ started s.log, a < s.actions ∧ (∀ w ∈ s.queue, a < w) ∧
    ∀ job, s.current = some job →
      a < job.action ∨ (a = job.action ∧ (job.phase = .acting ∨ job.phase = .ended))
  settled : ∀ a ∈ started s.log, a ∈ finished s.log ∨ s.current = some ⟨a, .acting⟩
  increasing : (started s.log).Pairwise (· < ·)
  serial : Serial s.log

theorem Serial.append {log more : List Event} (h : Serial log) (hmore : started more = []) :
    Serial (log ++ more) := by
  intro before b after heq a ha
  have hnone : ∀ c, Event.started c ∉ more := by
    intro c hc
    have hmem : c ∈ started more := List.mem_filterMap.mpr ⟨_, hc, rfl⟩
    simp [hmore] at hmem
  rcases List.append_eq_append_iff.mp heq with ⟨mid, rfl, hmid⟩ | ⟨mid, hlog, hmid⟩
  · exact absurd (by rw [hmid]; simp) (hnone b)
  · cases mid with
    | nil => exact absurd (by simp at hmid; rw [← hmid]; simp) (hnone b)
    | cons e mid =>
        obtain ⟨rfl, rfl⟩ := List.cons.inj hmid
        exact h before b mid hlog a ha

/-- The job at the head goes on without a start. -/
theorem Ordered.move (h : Ordered s) {job : Job} {p : Phase} {m : List Event}
    (hjob : s.current = some job) (hcurrent : t.current = some ⟨job.action, p⟩)
    (hlog : t.log = s.log ++ m) (hmore : started m = [])
    (hpending : t.pending = s.pending) (hqueue : t.queue = s.queue)
      (hactions : t.actions = s.actions)
    (hphase : job.phase = .acting ∨ job.phase = .ended → p = .ended)
    (hfinished : job.phase = .acting → job.action ∈ finished m) : Ordered t := by
  have hstarted : started t.log = started s.log :=
    by rw [hlog, started_append, hmore, List.append_nil]
  have hwaiting : t.waiting = s.waiting := by simp [Socket.waiting, hcurrent, hjob, hqueue]
  refine ⟨?_, ?_, ?_, ?_, ?_, ?_, ?_, ?_, ?_⟩
  · rw [hpending, hwaiting, h.pending]
  · rw [hpending]
    exact h.bound
  · simp [hcurrent]
  · rw [hwaiting]
    exact h.sorted
  · rw [hwaiting, hactions]
    exact h.below
  · intro a ha
    rw [hstarted] at ha
    obtain ⟨hless, hbefore, hhead⟩ := h.past a ha
    rw [hactions, hqueue]
    refine ⟨hless, hbefore, fun job' hjob' => ?_⟩
    obtain rfl := Option.some.inj (hcurrent.symm.trans hjob')
    rcases hhead job hjob with hlt | ⟨heq, hacting⟩
    · exact .inl hlt
    · exact .inr ⟨heq, .inr (hphase hacting)⟩
  · intro a ha
    rw [hstarted] at ha
    left
    rw [hlog, finished_append]
    rcases h.settled a ha with hdone | hacting
    · exact List.mem_append_left _ hdone
    · obtain rfl := Option.some.inj (hjob.symm.trans hacting)
      exact List.mem_append_right _ (hfinished rfl)
  · rw [hstarted]
    exact h.increasing
  · rw [hlog]
    exact h.serial.append hmore

/-- Nothing but the log and the environment changes. -/
theorem Ordered.keep (h : Ordered s) {m : List Event} (hcurrent : t.current = s.current)
    (hlog : t.log = s.log ++ m) (hmore : started m = []) (hpending : t.pending = s.pending)
    (hqueue : t.queue = s.queue) (hactions : t.actions = s.actions) : Ordered t := by
  have hstarted : started t.log = started s.log :=
    by rw [hlog, started_append, hmore, List.append_nil]
  have hwaiting : t.waiting = s.waiting := by simp [Socket.waiting, hcurrent, hqueue]
  refine ⟨?_, ?_, ?_, ?_, ?_, ?_, ?_, ?_, ?_⟩
  · rw [hpending, hwaiting, h.pending]
  · rw [hpending]
    exact h.bound
  · rw [hcurrent, hqueue]
    exact h.idle
  · rw [hwaiting]
    exact h.sorted
  · rw [hwaiting, hactions]
    exact h.below
  · rw [hstarted, hactions, hqueue, hcurrent]
    exact h.past
  · intro a ha
    rw [hstarted] at ha
    rw [hlog, finished_append, hcurrent]
    exact (h.settled a ha).imp_left (List.mem_append_left _)
  · rw [hstarted]
    exact h.increasing
  · rw [hlog]
    exact h.serial.append hmore

theorem Ordered.start (h : Ordered s) {job : Job} (hjob : s.current = some job)
    (hacting : job.phase ≠ .acting) (hended : job.phase ≠ .ended) :
    Ordered ((s.emit (.started job.action)).setPhase job.action .acting) := by
  have hwaiting : s.waiting = job.action :: s.queue := by simp [Socket.waiting, hjob]
  have hlast : started [Event.started job.action] = [job.action] := rfl
  have hsorted := h.sorted
  rw [hwaiting, List.pairwise_cons] at hsorted
  have hless : ∀ a ∈ started s.log, a < job.action := fun a ha =>
    ((h.past a ha).2.2 job hjob).resolve_right fun heq => heq.2.elim hacting hended
  have hfinished : ∀ a ∈ started s.log, a ∈ finished s.log := fun a ha =>
    (h.settled a ha).resolve_right fun heq =>
      hacting (congrArg Job.phase (Option.some.inj (hjob.symm.trans heq)))
  refine ⟨?_, h.bound, by simp, ?_, ?_, ?_, ?_, ?_, ?_⟩
  · rw [show (((s.emit (.started job.action)).setPhase job.action .acting)).waiting = s.waiting by
      simp [Socket.waiting, hjob]]
    exact h.pending
  · simpa [Socket.waiting] using hsorted
  · intro a ha
    exact h.below a (by simpa [Socket.waiting, hjob] using ha)
  · intro a ha
    simp only [setPhase_log, emit_log, started_append, hlast, List.mem_append, List.mem_singleton]
      at ha
    rcases ha with ha | rfl
    · refine ⟨(h.past a ha).1, (h.past a ha).2.1, fun job' hjob' => ?_⟩
      obtain rfl := Option.some.inj hjob'
      exact .inl (hless a ha)
    · refine ⟨h.below _ (by simp [hwaiting]), hsorted.1, fun job' hjob' => ?_⟩
      obtain rfl := Option.some.inj hjob'
      exact .inr ⟨rfl, .inl rfl⟩
  · intro a ha
    simp only [setPhase_log, emit_log, started_append, hlast, List.mem_append, List.mem_singleton]
      at ha
    rcases ha with ha | rfl
    · exact .inl (by simp [hfinished a ha])
    · exact .inr rfl
  · simp only [setPhase_log, emit_log, started_append, hlast]
    refine List.pairwise_append.mpr ⟨h.increasing, List.pairwise_singleton _ _, ?_⟩
    intro a ha b hb
    rw [List.mem_singleton.mp hb]
    exact hless a ha
  · intro before b after heq a ha
    rcases Journal.append_singleton_eq heq with ⟨rfl, -, -⟩ | ⟨init, hlog, -⟩
    · exact hfinished a ha
    · exact h.serial before b init hlog a ha

/-- The job at the head has ended, and the next one takes its place. -/
theorem Ordered.pop (h : Ordered s) {job : Job} (hjob : s.current = some job)
    (hended : job.phase = .ended) : Ordered (proceed access job s) := by
  have hwaiting : s.waiting = job.action :: s.queue := by simp [Socket.waiting, hjob]
  have hnext : (proceed access job s).waiting = s.queue := by
    simp only [Socket.waiting, proceed, hended]
    cases s.queue <;> rfl
  have hlog : (proceed access job s).log = s.log := by simp [proceed, hended]
  have hpending : (proceed access job s).pending = s.pending - 1 := by simp [proceed, hended]
  have hactions : (proceed access job s).actions = s.actions := by simp [proceed, hended]
  have hsorted := h.sorted
  rw [hwaiting, List.pairwise_cons] at hsorted
  refine ⟨?_, ?_, ?_, ?_, ?_, ?_, ?_, ?_, ?_⟩
  · rw [hpending, hnext, h.pending, hwaiting]
    simp
  · have := h.bound
    omega
  · intro hnone
    cases hqueue : s.queue with
    | nil => simp [proceed, hended, hqueue]
    | cons next rest => simp [proceed, hended, hqueue] at hnone
  · rw [hnext]
    exact hsorted.2
  · rw [hnext, hactions]
    exact fun a ha => h.below a (by simp [hwaiting, ha])
  · intro a ha
    rw [hlog] at ha
    obtain ⟨hless, hbefore, -⟩ := h.past a ha
    rw [hactions]
    simp only [proceed, hended]
    refine ⟨hless, fun w hw => hbefore w (List.mem_of_mem_tail hw), fun job' hjob' => .inl ?_⟩
    obtain ⟨next, hhead, rfl⟩ := Option.map_eq_some_iff.mp hjob'
    exact hbefore next (List.mem_of_mem_head? hhead)
  · intro a ha
    rw [hlog] at ha ⊢
    refine .inl ((h.settled a ha).resolve_right fun hacting => ?_)
    obtain rfl := Option.some.inj (hjob.symm.trans hacting)
    cases hended
  · rw [hlog]
    exact h.increasing
  · rw [hlog]
    exact h.serial

theorem Ordered.deny (h : Ordered s) {job : Job} (hjob : s.current = some job)
    (hacting : job.phase ≠ .acting) : Ordered (deny job.action s) :=
  h.move hjob (m := [.failed job.action]) rfl (by simp [Auth.deny]) rfl (by simp [Auth.deny])
    (by simp [Auth.deny]) (by simp [Auth.deny]) (fun _ => rfl) fun hphase => absurd hphase hacting

theorem Ordered.act (h : Ordered s) {job : Job} (hjob : s.current = some job)
    (hacting : job.phase ≠ .acting) (hended : job.phase ≠ .ended) : Ordered (act job.action s) := by
  rw [Auth.act]
  split
  · exact h.start hjob hacting hended
  · exact h.move hjob (m := []) rfl (by simp) rfl rfl rfl rfl (fun _ => rfl)
      fun hphase => absurd hphase hacting

theorem Ordered.grant (h : Ordered s) {job : Job} (hjob : s.current = some job)
    (hacting : job.phase ≠ .acting) (hended : job.phase ≠ .ended) (session : SessionContext) :
    Ordered (grant access job.action session s) := by
  rw [Auth.grant]
  split
  · exact h.deny hjob hacting
  · split
    · exact h.act hjob hacting hended
    · exact h.move hjob (m := []) rfl (by simp) rfl rfl rfl rfl
        (fun hphase => (hphase.elim hacting hended).elim) fun hphase => absurd hphase hacting

theorem Ordered.proceed (h : Ordered s) {job : Job} (hjob : s.current = some job) :
    Ordered (proceed access job s) := by
  cases hphase : job.phase with
  | reached =>
      simp only [Auth.proceed, hphase]
      exact h.move hjob (m := [.reached job.action]) rfl rfl rfl rfl rfl rfl
        (by simp [hphase]) (by simp [hphase])
  | looked answer =>
      match answer, hphase with
      | some (some session), hphase =>
          simp only [Auth.proceed, hphase]
          exact h.grant hjob (by simp [hphase]) (by simp [hphase]) session
      | some none, hphase | none, hphase =>
          simp only [Auth.proceed, hphase]
          exact h.deny hjob (by simp [hphase])
  | checked session answer =>
      match answer, hphase with
      | some true, hphase =>
          simp only [Auth.proceed, hphase]
          exact h.act hjob (by simp [hphase]) (by simp [hphase])
      | some false, hphase | none, hphase =>
          simp only [Auth.proceed, hphase]
          exact h.deny hjob (by simp [hphase])
  | ended => exact h.pop hjob hphase
  | lookup | check session | acting =>
      simp only [Auth.proceed, hphase]
      exact h

theorem Ordered.answer (h : Ordered s) {job : Job} (hjob : s.current = some job) (ok : Bool) :
    Ordered (answer initial access job ok s) := by
  cases hphase : job.phase with
  | lookup =>
      simp only [Auth.answer, hphase]
      split
      · exact h.move hjob (m := [.looked job.action s.db s.now]) rfl rfl rfl rfl rfl rfl
          (by simp [hphase]) (by simp [hphase])
      · exact h.move hjob (m := []) rfl (by simp) rfl rfl rfl rfl (by simp [hphase])
          (by simp [hphase])
  | check session =>
      simp only [Auth.answer, hphase]
      split
      · exact h.move hjob (m := [.checked job.action s.db]) rfl rfl rfl rfl rfl rfl
          (by simp [hphase]) (by simp [hphase])
      · exact h.move hjob (m := []) rfl (by simp) rfl rfl rfl rfl (by simp [hphase])
          (by simp [hphase])
  | reached | looked answer | checked session answer | acting | ended =>
      simp only [Auth.answer, hphase]
      exact h

theorem Ordered.actionEnds (h : Ordered s) {job : Job} (hjob : s.current = some job) (ok : Bool) :
    Ordered (actionEnds job ok s) := by
  cases hphase : job.phase with
  | acting =>
      simp only [Auth.actionEnds, hphase]
      split
      · exact h.move hjob (m := [.finished job.action]) rfl rfl rfl rfl rfl rfl (fun _ => rfl)
          fun _ => List.mem_singleton_self _
      · exact h.move hjob (m := [.finished job.action, .failed job.action]) rfl
          (by simp [Auth.deny]) rfl (by simp [Auth.deny]) (by simp [Auth.deny])
          (by simp [Auth.deny]) (fun _ => rfl) fun _ => List.mem_singleton_self _
  | reached | lookup | looked answer | check session | checked session answer | ended =>
      simp only [Auth.actionEnds, hphase]
      exact h

theorem Ordered.runAction (h : Ordered s) : Ordered (runAction s) := by
  rw [Auth.runAction]
  split
  · exact h
  · split
    · exact h.keep (m := []) (close_current s) (by simp) rfl (close_pending s) (close_queue s)
        (close_actions s)
    · rename_i hbound
      have hnew (t : Socket) (hwaiting : t.waiting = s.waiting ++ [s.actions])
          (hpending : t.pending = s.pending + 1) (hactions : t.actions = s.actions + 1)
          (hlog : t.log = s.log) (hcurrent : t.current = none → t.queue = [])
          (hpast : ∀ a ∈ started s.log, (∀ w ∈ t.queue, a < w) ∧ ∀ job, t.current = some job →
            a < job.action ∨ (a = job.action ∧ (job.phase = .acting ∨ job.phase = .ended)))
          (hsettled : ∀ a, s.current = some ⟨a, .acting⟩ → t.current = some ⟨a, .acting⟩) :
          Ordered t := by
        refine ⟨?_, by omega, hcurrent, ?_, ?_, ?_, ?_, ?_, ?_⟩
        · rw [hpending, hwaiting, h.pending, List.length_append, List.length_singleton]
        · rw [hwaiting]
          refine List.pairwise_append.mpr ⟨h.sorted, List.pairwise_singleton _ _, ?_⟩
          intro a ha b hb
          rw [List.mem_singleton.mp hb]
          exact h.below a ha
        · intro a ha
          rw [hwaiting] at ha
          rw [hactions]
          rcases List.mem_append.mp ha with ha | ha
          · have := h.below a ha
            omega
          · have := List.mem_singleton.mp ha
            omega
        · intro a ha
          rw [hlog] at ha
          rw [hactions]
          exact ⟨Nat.lt_succ_of_lt (h.past a ha).1, hpast a ha⟩
        · intro a ha
          rw [hlog] at ha ⊢
          exact (h.settled a ha).imp_right (hsettled a)
        · rw [hlog]
          exact h.increasing
        · rw [hlog]
          exact h.serial
      simp only
      split
      · rename_i hcurrent
        have hqueue := h.idle hcurrent
        refine hnew _ (by simp [Socket.waiting, hcurrent, hqueue]) rfl rfl rfl (by simp) ?_
          (by simp [hcurrent])
        intro a ha
        obtain ⟨hless, hbefore, -⟩ := h.past a ha
        refine ⟨hbefore, fun job hjob => .inl ?_⟩
        obtain rfl := Option.some.inj hjob
        exact hless
      · rename_i job hcurrent
        refine hnew _ (by simp [Socket.waiting, hcurrent]) rfl rfl rfl (by simp [hcurrent]) ?_
          (fun a ha => ha)
        intro a ha
        obtain ⟨hless, hbefore, hhead⟩ := h.past a ha
        refine ⟨fun w hw => ?_, hhead⟩
        rcases List.mem_append.mp hw with hw | hw
        · exact hbefore w hw
        · rw [List.mem_singleton.mp hw]
          exact hless

theorem Ordered.step (h : Ordered s) (i : Input) : Ordered (step initial access s i) := by
  cases i with
  | run => exact h.runAction
  | send bufferedAmount =>
      simp only [Auth.step, send]
      split
      · exact h
      · split
        · exact h.keep (m := []) (close_current s) (by simp) rfl (close_pending s) (close_queue s)
            (close_actions s)
        · exact h.keep (m := [.sent]) rfl rfl rfl rfl rfl rfl
  | subscribe =>
      simp only [Auth.step, subscribe]
      split
      · exact h.keep (m := [.called s.subscriptions]) rfl rfl rfl rfl rfl rfl
      · exact h.keep (m := []) rfl (by simp) rfl rfl rfl rfl
  | proceed =>
      simp only [Auth.step]
      split
      · exact h
      · rename_i job hjob
        exact h.proceed hjob
  | answer ok =>
      simp only [Auth.step]
      split
      · exact h
      · rename_i job hjob
        exact h.answer hjob ok
  | actionEnds ok =>
      simp only [Auth.step]
      split
      · exact h
      · rename_i job hjob
        exact h.actionEnds hjob ok
  | change db now => exact h.keep (m := []) rfl (by simp [Auth.step]) rfl rfl rfl rfl
  | revoke revocation =>
      simp only [Auth.step]
      split
      · exact h.keep (m := [.revoked]) (close_current _) (by simp) rfl (close_pending _)
          (close_queue _) (close_actions _)
      · exact h
  | close =>
      exact h.keep (m := []) (close_current s) (by simp [Auth.step]) rfl (close_pending s)
        (close_queue s) (close_actions s)
  | closed =>
      simp only [Auth.step]
      split
      · exact h
      · have hnone : started (s.cleanup.map .called) = [] :=
          List.filterMap_eq_nil_iff.mpr fun e he => by
            obtain ⟨u, -, rfl⟩ := List.mem_map.mp he
            rfl
        exact h.keep (m := s.cleanup.map .called) rfl rfl hnone rfl rfl rfl

/-! ### Subscriptions -/

/-- Every subscription is ended once, when the socket is closed or after. -/
structure Cleaned (s : Socket) : Prop where
  ledger : called s.log ++ s.cleanup = List.range s.subscriptions
  early : s.disposed = false → called s.log = []
  late : s.disposed → s.cleanup = []
  closed : s.ready = .closed ↔ s.disposed

theorem Cleaned.keep (h : Cleaned s) {m : List Event} (hlog : t.log = s.log ++ m)
    (hm : called m = []) (hcleanup : t.cleanup = s.cleanup)
    (hsubscriptions : t.subscriptions = s.subscriptions) (hdisposed : t.disposed = s.disposed)
    (hclosed : t.ready = .closed ↔ s.ready = .closed) : Cleaned t := by
  have hcalled : called t.log = called s.log := by rw [hlog, called_append, hm, List.append_nil]
  refine ⟨?_, ?_, ?_, ?_⟩
  · rw [hcalled, hcleanup, hsubscriptions]
    exact h.ledger
  · rw [hcalled, hdisposed]
    exact h.early
  · rw [hcleanup, hdisposed]
    exact h.late
  · rw [hclosed, hdisposed]
    exact h.closed

theorem Cleaned.close (h : Cleaned s) : Cleaned s.close :=
  h.keep (m := []) (by simp) rfl (close_cleanup s) (close_subscriptions s) (close_disposed s)
    (close_closed s)

theorem Cleaned.emit (h : Cleaned s) {e : Event} (he : called [e] = []) : Cleaned (s.emit e) :=
  h.keep (m := [e]) rfl he rfl rfl rfl Iff.rfl

theorem Cleaned.setPhase (h : Cleaned s) (action : ℕ) (p : Phase) : Cleaned (s.setPhase action p) :=
  h.keep (m := []) (by simp) rfl rfl rfl rfl Iff.rfl

theorem Cleaned.deny (h : Cleaned s) (action : ℕ) : Cleaned (deny action s) :=
  ((h.emit rfl).close).setPhase action .ended

theorem Cleaned.act (h : Cleaned s) (action : ℕ) : Cleaned (act action s) := by
  rw [Auth.act]
  split
  · exact (h.emit rfl).setPhase action .acting
  · exact h.setPhase action .ended

theorem Cleaned.proceed (h : Cleaned s) (job : Job) : Cleaned (proceed access job s) := by
  rw [Auth.proceed.eq_def]
  split
  · exact (h.emit rfl).setPhase _ _
  · rw [grant]
    split
    · exact h.deny job.action
    · split
      · exact h.act job.action
      · exact h.setPhase _ _
  · exact h.deny job.action
  · exact h.act job.action
  · exact h.deny job.action
  · exact h.keep (m := []) (by simp) rfl rfl rfl rfl Iff.rfl
  all_goals exact h

theorem Cleaned.answer (h : Cleaned s) (job : Job) (ok : Bool) :
    Cleaned (answer initial access job ok s) := by
  rw [Auth.answer.eq_def]
  split
  · split
    · exact (h.emit rfl).setPhase _ _
    · exact h.setPhase _ _
  · split
    · exact (h.emit rfl).setPhase _ _
    · exact h.setPhase _ _
  · exact h

theorem Cleaned.actionEnds (h : Cleaned s) (job : Job) (ok : Bool) :
    Cleaned (actionEnds job ok s) := by
  rw [Auth.actionEnds.eq_def]
  split
  · simp only
    split
    · exact (h.emit rfl).setPhase _ _
    · exact Cleaned.deny (h.emit rfl) job.action
  · exact h

theorem Cleaned.subscribe (h : Cleaned s) : Cleaned (subscribe s) := by
  have hledger := h.ledger
  rw [Auth.subscribe]
  simp only
  split
  · rename_i hdisposed
    have hcleanup := h.late hdisposed
    refine ⟨?_, by simp [Socket.emit, hdisposed], fun _ => hcleanup, h.closed⟩
    rw [hcleanup, List.append_nil] at hledger
    simp only [called_append, Socket.emit, hcleanup, List.append_nil, hledger]
    exact List.range_succ.symm
  · rename_i hopen
    refine ⟨?_, h.early, fun hdisposed => absurd hdisposed hopen, h.closed⟩
    rw [List.range_succ, ← hledger, List.append_assoc]

theorem Cleaned.onClose (h : Cleaned s) : Cleaned (onClose s) := by
  have hcalled : called (s.cleanup.map .called) = s.cleanup := by
    rw [called, List.filterMap_map]
    exact List.filterMap_some
  refine ⟨?_, by simp [Auth.onClose], fun _ => rfl, by simp [Auth.onClose]⟩
  simp only [Auth.onClose, called_append, hcalled, List.append_nil]
  exact h.ledger

theorem Cleaned.step (h : Cleaned s) (i : Input) : Cleaned (step initial access s i) := by
  cases i with
  | run =>
      simp only [Auth.step, Auth.runAction]
      split
      · exact h
      · split
        · exact h.close
        · split <;> exact h.keep (m := []) (by simp) rfl rfl rfl rfl Iff.rfl
  | send bufferedAmount =>
      simp only [Auth.step, send]
      split
      · exact h
      · split
        · exact h.close
        · exact h.emit rfl
  | subscribe => exact h.subscribe
  | proceed =>
      simp only [Auth.step]
      split
      · exact h
      · exact h.proceed _
  | answer ok =>
      simp only [Auth.step]
      split
      · exact h
      · exact h.answer _ ok
  | actionEnds ok =>
      simp only [Auth.step]
      split
      · exact h
      · exact h.actionEnds _ ok
  | change db now => exact h.keep (m := []) (by simp [Auth.step]) rfl rfl rfl rfl Iff.rfl
  | revoke revocation =>
      simp only [Auth.step]
      split
      · exact (h.emit rfl).close
      · exact h
  | close => exact h.close
  | closed =>
      simp only [Auth.step]
      split
      · exact h
      · exact h.onClose

end AfkClient.Auth

import AfkClient.Verification.Authorization.Queue

/-! Every action that starts has been checked in its turn. -/

namespace AfkClient.Auth

variable {initial : SessionContext} {access : Access} {s t : Socket} {log : List Event}

/-! ### The checks of an action -/

/-- After the action had reached the head of the queue, the session was found for it. -/
def Looked (initial : SessionContext) (log : List Event) (action : ℕ) (session : SessionContext)
    (after : List Event) : Prop :=
  ∃ before middle db now,
    log = before ++ .reached action :: (middle ++ .looked action db now :: after) ∧
      db.getSession now initial.sessionId = some session

/-- The session was found and may do what the socket is for. -/
def Granted (initial : SessionContext) (access : Access) (log : List Event) (action : ℕ) : Prop :=
  ∃ session after, Looked initial log action session after ∧
    (access.adminOnly → session.role = .admin) ∧
    ∀ id, access.account = some id →
      ∃ db, .checked action db ∈ after ∧ db.canAccessAccount session id

/-- What the phase of a job rests on. -/
def Evidence (initial : SessionContext) (access : Access) (log : List Event) (job : Job) : Prop :=
  match job.phase with
  | .lookup => .reached job.action ∈ log
  | .looked (some (some session)) => ∃ after, Looked initial log job.action session after
  | .check session =>
      (∃ after, Looked initial log job.action session after) ∧
        (access.adminOnly → session.role = .admin)
  | .checked _ (some true) => Granted initial access log job.action
  | _ => True

structure Justified (initial : SessionContext) (access : Access) (s : Socket) : Prop where
  starts : ∀ before action after, s.log = before ++ .started action :: after →
    Granted initial access before action
  phase : ∀ job, s.current = some job → Evidence initial access s.log job

theorem Looked.append {action : ℕ} {session : SessionContext} {after : List Event}
    (h : Looked initial log action session after) (m : List Event) :
    Looked initial (log ++ m) action session (after ++ m) := by
  obtain ⟨before, middle, db, now, rfl, hsession⟩ := h
  exact ⟨before, middle, db, now, by simp, hsession⟩

theorem Granted.append {action : ℕ} (h : Granted initial access log action) (m : List Event) :
    Granted initial access (log ++ m) action := by
  obtain ⟨session, after, hlooked, hadmin, haccount⟩ := h
  refine ⟨session, after ++ m, hlooked.append m, hadmin, fun id hid => ?_⟩
  obtain ⟨db, hchecked, hcan⟩ := haccount id hid
  exact ⟨db, List.mem_append_left _ hchecked, hcan⟩

theorem Evidence.append {job : Job} (h : Evidence initial access log job) (m : List Event) :
    Evidence initial access (log ++ m) job := by
  obtain ⟨action, phase⟩ := job
  match phase, h with
  | .lookup, h => exact List.mem_append_left _ h
  | .looked (some (some session)), ⟨after, h⟩ => exact ⟨after ++ m, h.append m⟩
  | .check session, ⟨⟨after, h⟩, hadmin⟩ => exact ⟨⟨after ++ m, h.append m⟩, hadmin⟩
  | .checked _ (some true), h => exact Granted.append h m
  | .reached, _ | .looked none, _ | .looked (some none), _ | .checked _ none, _
  | .checked _ (some false), _ | .acting, _ | .ended, _ => trivial

theorem Justified.keep (h : Justified initial access s) {m : List Event} (hlog : t.log = s.log ++ m)
    (hm : started m = [])
      (hphase : ∀ job, t.current = some job → Evidence initial access t.log job) :
    Justified initial access t := by
  refine ⟨fun before action after heq => ?_, hphase⟩
  have hnone : .started action ∉ m := by
    intro hmem
    have hin : action ∈ started m := List.mem_filterMap.mpr ⟨_, hmem, rfl⟩
    simp [hm] at hin
  rw [hlog] at heq
  rcases List.append_eq_append_iff.mp heq with ⟨mid, rfl, hmid⟩ | ⟨mid, hsplit, hmid⟩
  · exact absurd (by rw [hmid]; simp) hnone
  · cases mid with
    | nil => exact absurd (by simp at hmid; rw [← hmid]; simp) hnone
    | cons e mid =>
        obtain ⟨rfl, rfl⟩ := List.cons.inj hmid
        exact h.starts before action mid hsplit

/-- The job at the head stays, and the log grows. -/
theorem Justified.grow (h : Justified initial access s) {m : List Event} (hlog : t.log = s.log ++ m)
    (hm : started m = []) (hcurrent : t.current = s.current) : Justified initial access t :=
  h.keep hlog hm fun job hjob => by
    rw [hlog]
    exact (h.phase job (hcurrent ▸ hjob)).append m

theorem Justified.move (h : Justified initial access s) {m : List Event} {action : ℕ} {p : Phase}
    (hlog : t.log = s.log ++ m) (hm : started m = []) (hcurrent : t.current = some ⟨action, p⟩)
    (hphase : Evidence initial access t.log ⟨action, p⟩) : Justified initial access t :=
  h.keep hlog hm fun job hjob => by
    obtain rfl := Option.some.inj (hcurrent.symm.trans hjob)
    exact hphase

theorem Justified.deny (h : Justified initial access s) (action : ℕ) :
    Justified initial access (deny action s) :=
  h.move (m := [.failed action]) (by simp [Auth.deny]) rfl rfl trivial

theorem Justified.act (h : Justified initial access s) {action : ℕ}
    (hgranted : Granted initial access s.log action) : Justified initial access (act action s) := by
  rw [Auth.act]
  split
  · refine ⟨fun before b after heq => ?_, fun job hjob => ?_⟩
    · rcases Journal.append_singleton_eq heq with ⟨rfl, hb, -⟩ | ⟨init, hlog, -⟩
      · obtain rfl := Event.started.inj hb
        exact hgranted
      · exact h.starts before b init hlog
    · obtain rfl := Option.some.inj hjob
      trivial
  · exact h.move (m := []) (by simp) rfl rfl trivial

theorem Justified.grant (h : Justified initial access s) {action : ℕ} {session : SessionContext}
    {after : List Event} (hlooked : Looked initial s.log action session after) :
    Justified initial access (grant access action session s) := by
  rw [Auth.grant]
  split
  · exact h.deny action
  · rename_i hadmin
    have hrole : access.adminOnly → session.role = .admin := by simpa using hadmin
    split
    · rename_i hnone
      exact h.act ⟨session, after, hlooked, hrole, by simp [hnone]⟩
    · exact h.move (m := []) (by simp) rfl rfl ⟨⟨after, hlooked⟩, hrole⟩

theorem Justified.proceed (h : Justified initial access s) {job : Job}
    (hjob : s.current = some job) :
    Justified initial access (proceed access job s) := by
  have hevidence := h.phase job hjob
  obtain ⟨action, phase⟩ := job
  match phase, hevidence with
  | .reached, _ =>
      refine h.move (m := [.reached action]) rfl rfl rfl ?_
      show Evidence initial access
        (s.log ++ [.reached action]) ⟨action, if s.ready = .open then _ else _⟩
      split
      · exact List.mem_append_right _ (List.mem_singleton_self _)
      · trivial
  | .looked (some (some session)), ⟨after, hlooked⟩ => exact h.grant hlooked
  | .looked (some none), _ | .looked none, _ => exact h.deny action
  | .checked _ (some true), hgranted => exact h.act hgranted
  | .checked _ (some false), _ | .checked _ none, _ => exact h.deny action
  | .ended, _ =>
      refine h.keep (m := []) (by simp [Auth.proceed]) rfl fun job hnext => ?_
      obtain ⟨next, -, rfl⟩ := Option.map_eq_some_iff.mp hnext
      trivial
  | .lookup, _ | .check _, _ | .acting, _ => exact h

theorem Justified.answer (h : Justified initial access s) {job : Job} (hjob : s.current = some job)
    (ok : Bool) : Justified initial access (answer initial access job ok s) := by
  have hevidence := h.phase job hjob
  obtain ⟨action, phase⟩ := job
  match phase, hevidence with
  | .lookup, hreached =>
      simp only [Auth.answer]
      split
      · refine h.move (m := [.looked action s.db s.now]) rfl rfl rfl ?_
        cases hsession : s.db.getSession s.now initial.sessionId with
        | none => trivial
        | some session =>
            obtain ⟨before, middle, hlog⟩ := List.append_of_mem hreached
            refine ⟨[], before, middle, s.db, s.now, ?_, hsession⟩
            simp [hlog]
      · exact h.move (m := []) (by simp) rfl rfl trivial
  | .check session, ⟨⟨after, hlooked⟩, hadmin⟩ =>
      simp only [Auth.answer]
      split
      · refine h.move (m := [.checked action s.db]) rfl rfl rfl ?_
        cases haccount : access.account with
        | none => trivial
        | some id =>
            cases hcan : s.db.canAccessAccount session id with
            | false =>
                simp only [Option.map_some, hcan]
                trivial
            | true =>
                simp only [Option.map_some, hcan]
                have hlonger := hlooked.append [Event.checked action s.db]
                refine ⟨session, after ++ [Event.checked action s.db], hlonger, hadmin, ?_⟩
                intro id' hid
                obtain rfl := Option.some.inj (haccount.symm.trans hid)
                exact ⟨s.db, by simp, hcan⟩
      · exact h.move (m := []) (by simp) rfl rfl trivial
  | .reached, _ | .looked _, _ | .checked _ _, _ | .acting, _ | .ended, _ => exact h

theorem Justified.actionEnds (h : Justified initial access s) {job : Job}
    (hjob : s.current = some job) (ok : Bool) : Justified initial access (actionEnds job ok s) := by
  obtain ⟨action, phase⟩ := job
  match phase with
  | .acting =>
      simp only [Auth.actionEnds]
      split
      · exact h.move (m := [.finished action]) rfl rfl rfl trivial
      · exact h.move (m := [.finished action, .failed action]) (by simp [Auth.deny]) rfl rfl trivial
  | .reached | .lookup | .looked _ | .check _ | .checked _ _ | .ended => exact h

theorem Justified.step (h : Justified initial access s) (i : Input) :
    Justified initial access (step initial access s i) := by
  cases i with
  | run =>
      simp only [Auth.step, Auth.runAction]
      split
      · exact h
      · split
        · exact h.grow (m := []) (by simp) rfl (close_current s)
        · split
          · exact h.move (m := []) (by simp) rfl rfl trivial
          · exact h.grow (m := []) (by simp) rfl rfl
  | send bufferedAmount =>
      simp only [Auth.step, send]
      split
      · exact h
      · split
        · exact h.grow (m := []) (by simp) rfl (close_current s)
        · exact h.grow (m := [.sent]) rfl rfl rfl
  | subscribe =>
      simp only [Auth.step, Auth.subscribe]
      split
      · exact h.grow (m := [.called s.subscriptions]) rfl rfl rfl
      · exact h.grow (m := []) (by simp) rfl rfl
  | proceed =>
      simp only [Auth.step]
      split
      · exact h
      · rename_i job hjob
        exact h.proceed hjob
  | answer ok =>
      simp only [Auth.step]
      split
      · exact h
      · rename_i job hjob
        exact h.answer hjob ok
  | actionEnds ok =>
      simp only [Auth.step]
      split
      · exact h
      · rename_i job hjob
        exact h.actionEnds hjob ok
  | change db now => exact h.grow (m := []) (by simp [Auth.step]) rfl rfl
  | revoke revocation =>
      simp only [Auth.step]
      split
      · exact h.grow (m := [.revoked]) (by simp) rfl (close_current _)
      · exact h
  | close => exact h.grow (m := []) (by simp [Auth.step]) rfl (close_current s)
  | closed =>
      simp only [Auth.step]
      split
      · exact h
      · have hnone : started (s.cleanup.map .called) = [] :=
          List.filterMap_eq_nil_iff.mpr fun e he => by
            obtain ⟨u, -, rfl⟩ := List.mem_map.mp he
            rfl
        exact h.grow (m := s.cleanup.map .called) rfl hnone rfl

/-! ### Every run -/

theorem authorizeSocket_some (access : Access) {db : Database} {now : ℕ}
    (hs : authorizeSocket (some initial) db now = some s) :
    Quiet s ∧ Ordered s ∧ Cleaned s ∧ Justified initial access s := by
  obtain rfl := Option.some.inj hs
  refine ⟨⟨by simp [subscribe], by simp [subscribe]⟩, ?_, ?_, ?_, by simp [subscribe]⟩
  · exact ⟨rfl, Nat.zero_le _, fun _ =>
      rfl, .nil, by simp [subscribe, Socket.waiting], by simp [subscribe, started],
      by simp [subscribe, started], by simp [subscribe, started], by simp [subscribe, Serial]⟩
  · exact ⟨by simp [subscribe, called, List.range_succ], fun _ =>
      by simp [subscribe, called], by simp [subscribe],
      by simp [subscribe]⟩
  · simp [subscribe]

/-- A socket is authorized in every run: each action starts after its own successful checks, in
the order of the calls and one at a time; nothing starts and nothing is sent after a revocation or
a failed check; at most 64 actions are pending; every subscription is ended once. -/
theorem socket_authorized (initial : SessionContext) (access : Access) (db : Database) (now : ℕ)
    (s : Socket) (hs : authorizeSocket (some initial) db now = some s) (inputs : List Input) :
    let t := run (step initial access) s inputs
    (∀ before action after, t.log = before ++ .started action :: after →
      Granted initial access before action ∧ ∀ a ∈ started before, a < action ∧
        a ∈ finished before) ∧
    (∀ before e after, t.log = before ++ e :: after → e.ends → ∀ f ∈ after, ¬ f.works) ∧
    (t.pending = t.waiting.length ∧ t.pending ≤ 64) ∧
    (called t.log).Nodup ∧ (t.ready = .closed → ∀ u < t.subscriptions, u ∈ called t.log) ∧
    (t.ready ≠ .closed → called t.log = []) := by
  intro t
  obtain ⟨hquiet, hordered, hcleaned, hjustified⟩ := authorizeSocket_some access hs
  have hq : Quiet t := run_of_invariant (fun _ i h => h.step i) hquiet inputs
  have ho : Ordered t := run_of_invariant (fun _ i h => h.step i) hordered inputs
  have hc : Cleaned t := run_of_invariant (fun _ i h => h.step i) hcleaned inputs
  have hj : Justified initial access t := run_of_invariant (fun _ i h => h.step i) hjustified inputs
  refine ⟨fun before action after heq => ⟨hj.starts before action after heq, fun a ha => ?_⟩,
    hq.silent, ⟨ho.pending, ho.bound⟩, ?_, ?_, ?_⟩
  · refine ⟨?_, ho.serial before action after heq a ha⟩
    have hincreasing := ho.increasing
    rw [heq, started_append] at hincreasing
    exact (List.pairwise_append.mp hincreasing).2.2 a ha action List.mem_cons_self
  · have hnodup : (called t.log ++ t.cleanup).Nodup := by
      rw [hc.ledger]
      exact List.nodup_range
    exact (List.nodup_append.mp hnodup).1
  · intro hclosed u hu
    have hledger := hc.ledger
    rw [hc.late (hc.closed.mp hclosed), List.append_nil] at hledger
    rw [hledger]
    exact List.mem_range.mpr hu
  · intro hopen
    refine hc.early ?_
    cases hdisposed : t.disposed with
    | false => rfl
    | true => exact absurd (hc.closed.mpr hdisposed) hopen

/-- A viewer of one account, who runs an action and is then logged out. -/
def viewer : SessionContext := ⟨"s", "token", "u", "ann", .user, .active⟩

def viewerDb : Database where
  users := Table.empty.insert ⟨"u", "ann", "hash", .user, .active⟩
  sessions := Table.empty.insert ⟨"s", "u", "token", 100⟩
  assignments := [⟨"u", "a"⟩]

def visit : List Input :=
  [.run, .run, .proceed, .answer true, .proceed, .answer true, .proceed, .send 0, .actionEnds true,
    .proceed, .proceed, .revoke { userId := some "u" }, .answer true, .proceed, .answer true,
      .proceed,
    .send 0, .closed]

theorem socket_authorized_visit :
    ∃ s, authorizeSocket (some viewer) viewerDb 0 = some s ∧
      started (run (step viewer { accountId := some "a" }) s visit).log = [0] ∧
      (called (run (step viewer { accountId := some "a" }) s visit).log).Nodup :=
  ⟨_, rfl, by decide +kernel,
    (socket_authorized viewer { accountId := some "a" } viewerDb 0 _ rfl visit).2.2.2.1⟩

end AfkClient.Auth

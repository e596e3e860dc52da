import AfkClient.Library.Run
import AfkClient.Model.DashboardPreferences

/-! The optimistic edits of the dashboard, over every order of edits, reads and answers. A
rejected patch leaves the queue without a replay, so it stays on the page as long as it makes
a difference there. -/

namespace AfkClient.Dashboard

/-! ### What happened to the edits -/

structure Edits where
  /-- The patches that were taken up, in their order. -/
  made : List Patch := []
  /-- The patches that were saved or rejected. -/
  removed : List Patch := []
  /-- The number of completed writes. -/
  completed : ℕ := 0
  /-- For each refresh, the number of writes that were completed when it started. -/
  startedAt : List ℕ := []
  deriving DecidableEq, Repr

def Edits.step (e : Edits) (h : Hook) : Input → Edits
  | .update patch =>
      if h.run.active ∧ h.run.confirmed.isSome then { e with made := e.made ++ [patch] } else e
  | .written index answer =>
      match h.flushes[index]? with
      | none => e
      | some patch =>
          if ! h.run.active then e
          else
            match answer with
            | .ok .. => { e with removed := e.removed ++ [patch], completed := e.completed + 1 }
            | .apiError status _ =>
                if status ∈ rejections then { e with removed := e.removed ++ [patch] } else e
            | .failed => e
  | _ => e

/-- The hook beside its edits. -/
def watch (s : Hook × Edits) (input : Input) : Hook × Edits :=
  let h := s.1.step input
  let e := s.2.step s.1 input
  (h, if h.started = s.1.started then e else { e with startedAt := e.startedAt ++ [e.completed] })

def start : Hook × Edits := (.mount, { startedAt := [0] })

/-! ### Laws -/

/-- The patches were sent in the order in which they were made. -/
def InOrder (made sent : List Patch) : Prop :=
  ∃ positions : List ℕ, positions.Pairwise (· ≤ ·) ∧ sent.map some = positions.map (made[·]?)

structure Lawful (s : Hook × Edits) : Prop where
  shown : s.1.preferences = s.1.run.confirmed.map (s.1.run.pending.foldl apply)
  /-- Each patch is removed once, the first one first. -/
  queue : s.2.made = s.2.removed ++ s.1.run.pending
  inFlight : s.1.flushes.length ≤ 1
  sent : InOrder s.2.made s.1.sent

def Input.answer? : Input → Option Answer
  | .refreshed _ _ answer | .written _ answer => some answer
  | _ => none

/-- Only the server confirms preferences, and no refresh undoes a write that it did not see. -/
structure Fresh (s : Hook × Edits) (input : Input) : Prop where
  confirmed : (s.1.step input).run.confirmed = s.1.run.confirmed ∨
    ∃ initialized preferences, input.answer? = some (.ok initialized preferences) ∧
      (s.1.step input).run.confirmed = some preferences
  written : ∀ index initialized preferences, input = .written index (.ok initialized preferences) →
    index < s.1.flushes.length → s.1.run.active → (s.1.step input).run.confirmed = some preferences
  stale : ∀ id legacy answer started, input = .refreshed id legacy answer →
    s.2.startedAt[id]? = some started → started < s.2.completed →
    (s.1.step input).run.confirmed = s.1.run.confirmed ∧ (s.1.step input).preferences = s.1.preferences

/-- A patch is rejected only if the page is the same without it. -/
def Harmless (s : Hook × Edits) (input : Input) : Prop :=
  ∀ index status message, input = .written index (.apiError status message) →
    index < s.1.flushes.length → s.1.run.active → status ∈ rejections →
    s.1.run.confirmed.map (s.1.run.pending.tail.foldl apply) =
      s.1.run.confirmed.map (s.1.run.pending.foldl apply)

/-! ### The parts of a step -/

variable {h : Hook} {e : Edits} {input : Input}

@[simp] theorem replay_run (h : Hook) : h.replay.run = h.run := rfl

@[simp] theorem finish_pending (h : Hook) : h.finish.run.pending = h.run.pending := rfl

@[simp] theorem finish_confirmed (h : Hook) : h.finish.run.confirmed = h.run.confirmed := rfl

/-- What holds between any two lines of the code. -/
structure Core (h : Hook) (e : Edits) : Prop where
  queue : e.made = e.removed ++ h.run.pending
  unconfirmed : h.run.confirmed = none → h.run.pending = []
  version : h.run.version = e.completed
  started : e.startedAt.length = h.started
  starts : ∀ call ∈ h.refreshes, e.startedAt[call.id]? = some call.version
  sent : ∃ positions : List ℕ, positions.Pairwise (· ≤ ·) ∧
    (∀ k ∈ positions, k ≤ e.removed.length) ∧ h.sent.map some = positions.map (e.made[·]?)

/-- One `PATCH` request is under way, that of the first patch, or none. -/
def Flight (h : Hook) : Prop :=
  (h.flushes = [] ∧ h.run.saving = false) ∨
    ∃ patch rest, h.run.pending = patch :: rest ∧ h.flushes = [patch] ∧ h.run.saving = true

theorem Flight.length_le (hf : Flight h) : h.flushes.length ≤ 1 := by
  rcases hf with ⟨hnone, -⟩ | ⟨patch, rest, -, hone, -⟩
  · simp [hnone]
  · simp [hone]

theorem Core.send (hc : Core h e) : Core h.send e := by
  unfold Hook.send
  split
  · rename_i patch rest hpending
    refine ⟨hc.queue, hc.unconfirmed, hc.version, hc.started, hc.starts, ?_⟩
    obtain ⟨positions, hsorted, hle, hsent⟩ := hc.sent
    have hhead : e.made[e.removed.length]? = some patch := by
      rw [hc.queue, List.getElem?_append_right (Nat.le_refl _), hpending]
      simp
    refine ⟨positions ++ [e.removed.length], ?_, ?_, ?_⟩
    · exact List.pairwise_append.mpr ⟨hsorted, by simp, by simpa using hle⟩
    · simpa [or_imp, forall_and] using hle
    · simp [hsent, hhead]
  · exact ⟨hc.queue, hc.unconfirmed, hc.version, hc.started, hc.starts, hc.sent⟩

theorem flight_send (hnone : h.flushes = []) (hsaving : h.run.saving = true) : Flight h.send := by
  unfold Hook.send
  split
  · rename_i patch rest hpending
    exact .inr ⟨patch, rest, hpending, by simp [hnone], hsaving⟩
  · exact .inl ⟨hnone, rfl⟩

@[simp] theorem send_preferences (h : Hook) : h.send.preferences = h.preferences := by
  unfold Hook.send
  split <;> rfl

@[simp] theorem send_confirmed (h : Hook) : h.send.run.confirmed = h.run.confirmed := by
  unfold Hook.send
  split <;> rfl

@[simp] theorem send_pending (h : Hook) : h.send.run.pending = h.run.pending := by
  unfold Hook.send
  split <;> rfl

@[simp] theorem send_started (h : Hook) : h.send.started = h.started := by
  unfold Hook.send
  split <;> rfl

/-- `flush` only sends. -/
theorem flush_cases (h : Hook) : h.flush = h ∨
    h.run.active ∧ h.run.saving = false ∧ h.run.confirmed.isSome ∧
      h.flush = Hook.send { h with run := { h.run with saving := true }, saving := true } := by
  unfold Hook.flush
  split
  · exact .inl rfl
  · rename_i hopen
    simp only [Bool.or_eq_true, Bool.not_eq_true', Option.isNone_iff_eq_none, not_or,
      Bool.not_eq_false, Bool.not_eq_true] at hopen
    exact .inr ⟨hopen.1.1, hopen.1.2, by simpa [Option.isSome_iff_ne_none] using hopen.2, rfl⟩

theorem Core.flush (hc : Core h e) : Core h.flush e := by
  rcases flush_cases h with heq | ⟨-, -, -, heq⟩
  · rw [heq]
    exact hc
  · rw [heq]
    exact Core.send ⟨hc.queue, hc.unconfirmed, hc.version, hc.started, hc.starts, hc.sent⟩

theorem Flight.flush (hf : Flight h) : Flight h.flush := by
  rcases flush_cases h with heq | ⟨-, hsaving, -, heq⟩
  · rw [heq]
    exact hf
  · rw [heq]
    rcases hf with ⟨hnone, -⟩ | ⟨_, _, -, -, htrue⟩
    · exact flight_send hnone rfl
    · cases hsaving.symm.trans htrue

@[simp] theorem flush_started (h : Hook) : h.flush.started = h.started := by
  rcases flush_cases h with heq | ⟨-, -, -, heq⟩ <;> rw [heq]
  simp

theorem flush_shown (h : Hook) : h.flush.preferences = h.preferences ∧
    h.flush.run.confirmed = h.run.confirmed ∧ h.flush.run.pending = h.run.pending := by
  rcases flush_cases h with heq | ⟨-, -, -, heq⟩ <;> rw [heq] <;> simp

/-! ### Edits -/

variable {patch : Patch}

/-- New patches stand behind those that were sent. -/
theorem Core.push (hc : Core h e) (hconfirmed : h.run.confirmed.isSome) :
    Core { h with run := { h.run with pending := h.run.pending ++ [patch] } }
      { e with made := e.made ++ [patch] } := by
  refine ⟨?_, ?_, hc.version, hc.started, hc.starts, ?_⟩
  · rw [hc.queue, List.append_assoc]
  · intro hnone
    have hnone : h.run.confirmed = none := hnone
    simp [hnone] at hconfirmed
  · obtain ⟨positions, hsorted, hle, hsent⟩ := hc.sent
    refine ⟨positions, hsorted, hle, hsent.trans (List.map_congr_left fun k hk => ?_)⟩
    have hsome : e.made[k]? ∈ h.sent.map some := hsent ▸ List.mem_map_of_mem hk
    obtain ⟨found, -, hfound⟩ := List.mem_map.mp hsome
    have hlt := (List.getElem?_eq_some_iff.mp hfound.symm).1
    rw [List.getElem?_append_left hlt]

theorem update_cases (h : Hook) (patch : Patch) :
    (¬ (h.run.active ∧ h.run.confirmed.isSome) ∧ h.update patch = h) ∨
      (h.run.active ∧ h.run.confirmed.isSome) ∧ h.update patch =
        (Hook.replay { h with run := { h.run with pending := h.run.pending ++ [patch] } }).flush := by
  unfold Hook.update
  cases h.run.active <;> cases h.run.confirmed <;> simp

theorem Core.update (hc : Core h e) (patch : Patch) :
    Core (h.update patch) (e.step h (.update patch)) := by
  rcases update_cases h patch with ⟨hclosed, heq⟩ | ⟨hopen, heq⟩
  · rw [heq, Edits.step, if_neg hclosed]
    exact hc
  · rw [heq, Edits.step, if_pos hopen]
    have hpush := @Core.push h e patch hc hopen.2
    exact Core.flush ⟨hpush.queue, hpush.unconfirmed, hpush.version, hpush.started, hpush.starts,
      hpush.sent⟩

theorem Flight.update (hf : Flight h) (patch : Patch) : Flight (h.update patch) := by
  rcases update_cases h patch with ⟨-, heq⟩ | ⟨-, heq⟩
  · rw [heq]
    exact hf
  · rw [heq]
    refine Flight.flush ?_
    rcases hf with hnone | ⟨first, rest, hpending, hrest⟩
    · exact .inl hnone
    · refine .inr ⟨first, rest ++ [patch], ?_, hrest⟩
      simp [hpending]

theorem update_shown (hshown : h.preferences = h.run.confirmed.map (h.run.pending.foldl apply))
    (patch : Patch) : (h.update patch).preferences =
      (h.update patch).run.confirmed.map ((h.update patch).run.pending.foldl apply) := by
  rcases update_cases h patch with ⟨-, heq⟩ | ⟨-, heq⟩
  · rw [heq, hshown]
  · obtain ⟨hpreferences, hconfirmed, hpending⟩ := flush_shown
      (Hook.replay { h with run := { h.run with pending := h.run.pending ++ [patch] } })
    rw [heq, hpreferences, hconfirmed, hpending]
    rfl

/-! ### Reads -/

/-- What a refresh that goes on or ends leaves as it is. -/
structure Aside (h h' : Hook) : Prop where
  pending : h'.run.pending = h.run.pending
  saving : h'.run.saving = h.run.saving
  version : h'.run.version = h.run.version
  flushes : h'.flushes = h.flushes
  sent : h'.sent = h.sent
  started : h'.started = h.started
  refreshes : ∀ call' ∈ h'.refreshes, ∃ call ∈ h.refreshes, call'.id = call.id ∧ call'.version = call.version

/-- How a refresh goes on: with no change of the preferences, or with those of its answer. -/
inductive Refreshed (h : Hook) (id : ℕ) (answer : Answer) (h' : Hook) : Prop where
  | same (hconfirmed : h'.run.confirmed = h.run.confirmed) (hpreferences : h'.preferences = h.preferences)
  | confirmed {initialized preferences call} (hanswer : answer = .ok initialized preferences)
      (hcall : call ∈ h.refreshes) (hid : call.id = id) (hversion : call.version = h.run.version)
      (hconfirmed : h'.run.confirmed = some preferences)
      (hpreferences : h'.preferences = h'.run.confirmed.map (h'.run.pending.foldl apply))

theorem refreshed_spec (h : Hook) (id : ℕ) (legacy : Bool) (answer : Answer) :
    Aside h (h.refreshed id legacy answer) ∧ Refreshed h id answer (h.refreshed id legacy answer) := by
  have hrest : ∀ call' ∈ h.refreshes.filter (·.id ≠ id), ∃ call ∈ h.refreshes,
      call'.id = call.id ∧ call'.version = call.version :=
    fun call hcall => ⟨call, List.mem_of_mem_filter hcall, rfl, rfl⟩
  unfold Hook.refreshed
  split
  · exact ⟨⟨rfl, rfl, rfl, rfl, rfl, rfl, fun call hcall => ⟨call, hcall, rfl, rfl⟩⟩, .same rfl rfl⟩
  · rename_i call hfind
    have hcall := List.mem_of_find?_eq_some hfind
    have hid : call.id = id := by simpa using List.find?_some hfind
    dsimp only
    split
    · exact ⟨⟨rfl, rfl, rfl, rfl, rfl, rfl, hrest⟩, .same rfl rfl⟩
    · split
      · split
        · refine ⟨⟨rfl, rfl, rfl, rfl, rfl, rfl, fun call' hcall' => ?_⟩, .same rfl rfl⟩
          rcases List.mem_append.mp hcall' with hcall' | hcall'
          · exact hrest call' hcall'
          · exact ⟨call, hcall, by simp [List.mem_singleton.mp hcall']⟩
        · split
          · exact ⟨⟨rfl, rfl, rfl, rfl, rfl, rfl, hrest⟩, .same rfl rfl⟩
          · rename_i hversion
            exact ⟨⟨rfl, rfl, rfl, rfl, rfl, rfl, hrest⟩,
              .confirmed rfl hcall hid (not_not.mp hversion) rfl rfl⟩
      · exact ⟨⟨rfl, rfl, rfl, rfl, rfl, rfl, hrest⟩, .same rfl rfl⟩

theorem Core.refreshed (hc : Core h e) (id : ℕ) (legacy : Bool) (answer : Answer) :
    Core (h.refreshed id legacy answer) e := by
  obtain ⟨haside, hrefreshed⟩ := refreshed_spec h id legacy answer
  refine ⟨?_, ?_, ?_, ?_, ?_, ?_⟩
  · rw [haside.pending, hc.queue]
  · rw [haside.pending]
    intro hnone
    cases hrefreshed with
    | same hconfirmed => exact hc.unconfirmed (hconfirmed ▸ hnone)
    | confirmed _ _ _ _ hconfirmed => cases hconfirmed.symm.trans hnone
  · rw [haside.version, hc.version]
  · rw [haside.started, hc.started]
  · intro call' hcall'
    obtain ⟨call, hcall, hid, hversion⟩ := haside.refreshes call' hcall'
    rw [hid, hversion]
    exact hc.starts call hcall
  · rw [haside.sent]
    exact hc.sent

theorem Aside.flight {h' : Hook} (haside : Aside h h') (hf : Flight h) : Flight h' := by
  unfold Flight
  rw [haside.flushes, haside.pending, haside.saving]
  exact hf

theorem Core.refresh (hc : Core h e) (hactive : h.run.active) :
    Core h.refresh { e with startedAt := e.startedAt ++ [e.completed] } := by
  have hstart : h.refresh = { h with
      started := h.started + 1
      refreshes := h.refreshes ++ [{ id := h.started, version := h.run.version }] } := by
    simp [Hook.refresh, hactive]
  rw [hstart]
  refine ⟨hc.queue, hc.unconfirmed, hc.version, ?_, ?_, hc.sent⟩
  · simp [hc.started]
  · intro call hcall
    rcases List.mem_append.mp hcall with hcall | hcall
    · have hsome := hc.starts call hcall
      rw [List.getElem?_append_left (List.getElem?_eq_some_iff.mp hsome).1]
      exact hsome
    · rw [List.mem_singleton.mp hcall, ← hc.started, List.getElem?_concat_length, hc.version]

/-! ### Writes -/

/-- The first patch was saved or rejected. -/
theorem Core.removed {rest : List Patch} (hc : Core h e) (hpending : h.run.pending = patch :: rest) :
    e.made = (e.removed ++ [patch]) ++ rest ∧ ∃ positions : List ℕ, positions.Pairwise (· ≤ ·) ∧
      (∀ k ∈ positions, k ≤ (e.removed ++ [patch]).length) ∧
      h.sent.map some = positions.map (e.made[·]?) := by
  obtain ⟨positions, hsorted, hle, hsent⟩ := hc.sent
  refine ⟨by simp [hc.queue, hpending], positions, hsorted, fun k hk => ?_, hsent⟩
  rw [List.length_append]
  exact (hle k hk).trans (Nat.le_add_right _ _)

/-- What any answer of the write leaves as it is. -/
structure Settled (h h' : Hook) : Prop where
  flushes : h'.flushes = []
  sent : h'.sent = h.sent
  started : h'.started = h.started
  refreshes : h'.refreshes = h.refreshes

/-- How a write ends: it is saved, it is rejected, or the patch stays in the queue. -/
inductive Written (h : Hook) (e : Edits) (answer : Answer) : Hook → Edits → Prop where
  | saved {initialized preferences patch rest} {h' : Hook} (hactive : h.run.active)
      (hanswer : answer = .ok initialized preferences) (hpending : h.run.pending = patch :: rest)
      (hrun : h'.run = { h.run with
        pending := rest, confirmed := some preferences, version := h.run.version + 1 })
      (hpreferences : h'.preferences = h'.run.confirmed.map (h'.run.pending.foldl apply))
      (hsettled : Settled h h') : Written h e answer h'.send
        { e with removed := e.removed ++ [patch], completed := e.completed + 1 }
  | rejected {status message patch rest} {h' : Hook} (hactive : h.run.active)
      (hanswer : answer = .apiError status message) (hstatus : status ∈ rejections)
      (hpending : h.run.pending = patch :: rest)
      (hrun : h'.run = { h.run with pending := rest, saving := false })
      (hpreferences : h'.preferences = h.preferences) (hsettled : Settled h h') :
      Written h e answer h' { e with removed := e.removed ++ [patch] }
  | kept {h' : Hook} (hunsaved : ∀ initialized preferences,
        answer = .ok initialized preferences → h.run.active = false)
      (hunrejected : ∀ status message,
        answer = .apiError status message → h.run.active → status ∉ rejections)
      (hrun : h'.run = { h.run with saving := false })
      (hpreferences : h'.preferences = h.preferences) (hsettled : Settled h h') :
      Written h e answer h' e

/-- The write that is answered is that of the first patch. -/
theorem written_cases (hf : Flight h) (e : Edits) (index : ℕ) (answer : Answer) :
    (h.flushes.length ≤ index ∧ h.written index answer = h ∧
        e.step h (.written index answer) = e) ∨
      index < h.flushes.length ∧
        Written h e answer (h.written index answer) (e.step h (.written index answer)) := by
  rcases Nat.lt_or_ge index h.flushes.length with hlt | hge
  · right
    refine ⟨hlt, ?_⟩
    rcases hf with ⟨hnone, -⟩ | ⟨patch, rest, hpending, hone, hsaving⟩
    · simp [hnone] at hlt
    obtain rfl : index = 0 := by simpa [hone] using hlt
    simp only [Hook.written, Edits.step, hone, List.getElem?_cons_zero, List.eraseIdx_cons_zero]
    by_cases hactive : h.run.active
    · simp only [hactive, Bool.not_true, Bool.false_eq_true, if_false, hpending, List.tail_cons]
      cases answer with
      | ok initialized preferences =>
          exact .saved hactive rfl hpending (by simp [hactive]) rfl ⟨rfl, rfl, rfl, rfl⟩
      | apiError status message =>
          by_cases hstatus : status ∈ rejections
          · simp only [hstatus, if_true]
            exact .rejected hactive rfl hstatus hpending (by simp [Hook.finish, hactive]) rfl
              ⟨rfl, rfl, rfl, rfl⟩
          · simp only [hstatus, if_false]
            refine .kept (by simp) ?_ (by simp [Hook.finish, hpending, hactive]) rfl
              ⟨rfl, rfl, rfl, rfl⟩
            rintro _ _ ⟨⟩ -
            exact hstatus
      | failed =>
          exact .kept (by simp) (by simp) (by simp [Hook.finish, hpending, hactive]) rfl
            ⟨rfl, rfl, rfl, rfl⟩
    · simp only [Bool.not_eq_true] at hactive
      simp only [hactive, Bool.not_false, if_true]
      refine .kept (fun _ _ _ => hactive) ?_ (by simp [hactive]) rfl ⟨rfl, rfl, rfl, rfl⟩
      exact fun _ _ _ htrue => absurd htrue (by simp [hactive])
  · left
    simp [hge, Hook.written, Edits.step]

theorem Written.core {answer : Answer} {h' : Hook} {e' : Edits} (hw : Written h e answer h' e')
    (hc : Core h e) : Core h' e' := by
  cases hw with
  | saved hactive hanswer hpending hrun hpreferences hsettled =>
      obtain ⟨hqueue, hsent⟩ := hc.removed hpending
      refine Core.send ⟨?_, ?_, ?_, ?_, ?_, ?_⟩
      · rw [hrun]
        exact hqueue
      · rw [hrun]
        exact nofun
      · rw [hrun, ← hc.version]
      · rw [hsettled.started]
        exact hc.started
      · rw [hsettled.refreshes]
        exact hc.starts
      · rw [hsettled.sent]
        exact hsent
  | rejected hactive hanswer hstatus hpending hrun hpreferences hsettled =>
      obtain ⟨hqueue, hsent⟩ := hc.removed hpending
      refine ⟨?_, ?_, ?_, ?_, ?_, ?_⟩
      · rw [hrun]
        exact hqueue
      · rw [hrun]
        intro hnone
        cases hpending.symm.trans (hc.unconfirmed hnone)
      · rw [hrun]
        exact hc.version
      · rw [hsettled.started]
        exact hc.started
      · rw [hsettled.refreshes]
        exact hc.starts
      · rw [hsettled.sent]
        exact hsent
  | kept hunsaved hunrejected hrun hpreferences hsettled =>
      refine ⟨?_, ?_, ?_, ?_, ?_, ?_⟩
      · rw [hrun]
        exact hc.queue
      · rw [hrun]
        exact hc.unconfirmed
      · rw [hrun]
        exact hc.version
      · rw [hsettled.started]
        exact hc.started
      · rw [hsettled.refreshes]
        exact hc.starts
      · rw [hsettled.sent]
        exact hc.sent

theorem Written.started {answer : Answer} {h' : Hook} {e' : Edits} (hw : Written h e answer h' e') :
    h'.started = h.started := by
  cases hw with
  | saved hactive hanswer hpending hrun hpreferences hsettled =>
      rw [send_started, hsettled.started]
  | rejected hactive hanswer hstatus hpending hrun hpreferences hsettled => exact hsettled.started
  | kept hunsaved hunrejected hrun hpreferences hsettled => exact hsettled.started

theorem Written.flight {answer : Answer} {h' : Hook} {e' : Edits} (hw : Written h e answer h' e')
    (hsaving : h.run.saving = true) : Flight h' := by
  cases hw with
  | saved hactive hanswer hpending hrun hpreferences hsettled =>
      exact flight_send hsettled.flushes (by rw [hrun, hsaving])
  | rejected hactive hanswer hstatus hpending hrun hpreferences hsettled =>
      exact .inl ⟨hsettled.flushes, by rw [hrun]⟩
  | kept hunsaved hunrejected hrun hpreferences hsettled =>
      exact .inl ⟨hsettled.flushes, by rw [hrun]⟩

/-! ### Steps -/

structure Sound (s : Hook × Edits) : Prop where
  core : Core s.1 s.2
  flight : Flight s.1

def Shown (h : Hook) : Prop := h.preferences = h.run.confirmed.map (h.run.pending.foldl apply)

theorem sound_start : Sound start := by
  refine ⟨⟨rfl, fun _ => rfl, rfl, rfl, ?_, [], List.Pairwise.nil, nofun, rfl⟩, .inl ⟨rfl, rfl⟩⟩
  intro call hcall
  obtain rfl : call = { id := 0, version := 0 } := List.mem_singleton.mp hcall
  rfl

variable {s : Hook × Edits}

theorem watch_same (hstarted : (s.1.step input).started = s.1.started) :
    watch s input = (s.1.step input, s.2.step s.1 input) := by
  simp [watch, hstarted]

theorem watch_refresh (hstep : s.1.step input = s.1.refresh) (hedits : s.2.step s.1 input = s.2) :
    watch s input = s ∨ s.1.run.active ∧
      watch s input = (s.1.refresh, { s.2 with startedAt := s.2.startedAt ++ [s.2.completed] }) := by
  cases hactive : s.1.run.active with
  | false =>
      left
      have hsame : s.1.refresh = s.1 := by simp [Hook.refresh, hactive]
      simp [watch, hstep, hedits, hsame]
  | true =>
      right
      have hnew : s.1.refresh.started ≠ s.1.started := by simp [Hook.refresh, hactive]
      simp [watch, hstep, hedits, hnew]

theorem Sound.refresh (hs : Sound s) (hstep : s.1.step input = s.1.refresh)
    (hedits : s.2.step s.1 input = s.2) : Sound (watch s input) := by
  rcases watch_refresh hstep hedits with heq | ⟨hactive, heq⟩
  · rw [heq]
    exact hs
  · rw [heq]
    refine ⟨hs.core.refresh hactive, ?_⟩
    simpa [Flight, Hook.refresh, hactive] using hs.flight

theorem Sound.step (hs : Sound s) (input : Input) : Sound (watch s input) := by
  cases input with
  | update patch =>
      have hstarted : (s.1.update patch).started = s.1.started := by
        rcases update_cases s.1 patch with ⟨-, heq⟩ | ⟨-, heq⟩ <;> rw [heq]
        simp [Hook.replay]
      rw [@watch_same (.update patch) s hstarted]
      exact ⟨hs.core.update patch, hs.flight.update patch⟩
  | refresh => exact hs.refresh rfl rfl
  | retry =>
      by_cases hpending : s.1.run.pending = []
      · exact hs.refresh (by simp [Hook.step, Hook.retry, hpending]) rfl
      · have hstep : s.1.step .retry = s.1.flush := by simp [Hook.step, Hook.retry, hpending]
        rw [watch_same (by rw [hstep, flush_started]), hstep]
        exact ⟨hs.core.flush, hs.flight.flush⟩
  | refreshed id legacy answer =>
      have haside := (refreshed_spec s.1 id legacy answer).1
      rw [@watch_same (.refreshed id legacy answer) s haside.started]
      exact ⟨hs.core.refreshed id legacy answer, haside.flight hs.flight⟩
  | written index answer =>
      rcases written_cases hs.flight s.2 index answer with ⟨-, hsame, hedits⟩ | ⟨hlt, hw⟩
      · rw [watch_same (by rw [Hook.step, hsame]), Hook.step, hsame, hedits]
        exact hs
      · rw [@watch_same (.written index answer) s hw.started]
        refine ⟨hw.core hs.core, hw.flight ?_⟩
        rcases hs.flight with ⟨hnone, -⟩ | ⟨_, _, -, -, hsaving⟩
        · simp [hnone] at hlt
        · exact hsaving
  | unmount =>
      rw [@watch_same .unmount s rfl]
      exact ⟨⟨hs.core.queue, hs.core.unconfirmed, hs.core.version, hs.core.started, hs.core.starts,
        hs.core.sent⟩, hs.flight⟩

/-! ### What is shown -/

theorem watch_fst (s : Hook × Edits) (input : Input) : (watch s input).1 = s.1.step input := rfl

theorem shown_refresh (hshown : Shown h) : Shown h.refresh := by
  unfold Hook.refresh
  split
  · exact hshown
  · exact hshown

theorem shown_flush (hshown : Shown h) : Shown h.flush := by
  obtain ⟨hpreferences, hconfirmed, hpending⟩ := flush_shown h
  rw [Shown, hpreferences, hconfirmed, hpending]
  exact hshown

theorem shown_refreshed (hshown : Shown h) (id : ℕ) (legacy : Bool) (answer : Answer) :
    Shown (h.refreshed id legacy answer) := by
  obtain ⟨haside, hrefreshed⟩ := refreshed_spec h id legacy answer
  cases hrefreshed with
  | same hconfirmed hpreferences =>
      rw [Shown, hconfirmed, hpreferences, haside.pending]
      exact hshown
  | confirmed hanswer hcall hid hversion hconfirmed hpreferences => exact hpreferences

/-- Only the rejection of a patch that makes a difference leaves the page behind the queue. -/
theorem Written.shown_iff {answer : Answer} {h' : Hook} {e' : Edits} (hw : Written h e answer h' e')
    (hshown : Shown h) : Shown h' ↔ ∀ status message, answer = .apiError status message →
      h.run.active → status ∈ rejections →
      h.run.confirmed.map (h.run.pending.tail.foldl apply) =
        h.run.confirmed.map (h.run.pending.foldl apply) := by
  cases hw with
  | @saved initialized preferences patch rest h₁ hactive hanswer hpending hrun hpreferences hsettled =>
      have hshown' : Shown h₁.send := by
        rw [Shown, send_preferences, send_confirmed, send_pending]
        exact hpreferences
      refine iff_of_true hshown' fun status message hstatus => ?_
      cases hanswer.symm.trans hstatus
  | rejected hactive hanswer hstatus hpending hrun hpreferences hsettled =>
      have hkept : Shown h' ↔ h.run.confirmed.map (h.run.pending.tail.foldl apply) =
          h.run.confirmed.map (h.run.pending.foldl apply) := by
        rw [Shown, hpreferences, hrun, hshown, hpending]
        exact eq_comm
      rw [hkept]
      exact ⟨fun heq _ _ _ _ _ => heq, fun heq => heq _ _ hanswer hactive hstatus⟩
  | kept hunsaved hunrejected hrun hpreferences hsettled =>
      have hshown' : Shown h' := by
        rw [Shown, hpreferences, hrun]
        exact hshown
      refine iff_of_true hshown' fun status message hanswer hactive hstatus => ?_
      exact absurd hstatus (hunrejected status message hanswer hactive)

theorem shown_step (hs : Sound s) (hshown : Shown s.1) (input : Input) :
    Shown (watch s input).1 ↔ Harmless s input := by
  rw [watch_fst]
  cases input with
  | update patch => exact iff_of_true (update_shown hshown patch) nofun
  | refresh => exact iff_of_true (shown_refresh hshown) nofun
  | retry =>
      refine iff_of_true ?_ nofun
      change Shown s.1.retry
      unfold Hook.retry
      split
      · exact shown_flush hshown
      · exact shown_refresh hshown
  | refreshed id legacy answer => exact iff_of_true (shown_refreshed hshown id legacy answer) nofun
  | unmount => exact iff_of_true hshown nofun
  | written index answer =>
      rcases written_cases hs.flight s.2 index answer with ⟨hge, hsame, -⟩ | ⟨hlt, hw⟩
      · rw [Hook.step, hsame]
        refine iff_of_true hshown ?_
        rintro _ status message ⟨⟩ hlt
        omega
      · rw [Hook.step, hw.shown_iff hshown]
        constructor
        · rintro h _ status message ⟨⟩ -
          exact h status message rfl
        · rintro h status message rfl
          exact h index status message rfl hlt

/-! ### What is confirmed -/

theorem Written.confirmed {answer : Answer} {h' : Hook} {e' : Edits} (hw : Written h e answer h' e') :
    (∀ initialized preferences, answer = .ok initialized preferences → h.run.active →
      h'.run.confirmed = some preferences) ∧
    (h'.run.confirmed = h.run.confirmed ∨ ∃ initialized preferences,
      answer = .ok initialized preferences ∧ h'.run.confirmed = some preferences) := by
  cases hw with
  | @saved initialized preferences patch rest h₁ hactive hanswer hpending hrun hpreferences hsettled =>
      have hconfirmed : h₁.send.run.confirmed = some preferences := by rw [send_confirmed, hrun]
      refine ⟨fun _ _ hanswer' _ => ?_, .inr ⟨initialized, preferences, hanswer, hconfirmed⟩⟩
      obtain ⟨-, rfl⟩ := Answer.ok.inj (hanswer.symm.trans hanswer')
      exact hconfirmed
  | rejected hactive hanswer hstatus hpending hrun hpreferences hsettled =>
      refine ⟨fun _ _ hanswer' => ?_, .inl (by rw [hrun])⟩
      cases hanswer.symm.trans hanswer'
  | kept hunsaved hunrejected hrun hpreferences hsettled =>
      refine ⟨fun _ _ hanswer hactive => ?_, .inl (by rw [hrun])⟩
      cases hactive.symm.trans (hunsaved _ _ hanswer)

theorem Sound.fresh (hs : Sound s) (input : Input) : Fresh s input := by
  cases input with
  | update patch =>
      refine ⟨.inl ?_, nofun, nofun⟩
      rcases update_cases s.1 patch with ⟨-, heq⟩ | ⟨-, heq⟩
      · rw [Hook.step, heq]
      · rw [Hook.step, heq, (flush_shown _).2.1]
        rfl
  | refresh =>
      refine ⟨.inl ?_, nofun, nofun⟩
      simp only [Hook.step, Hook.refresh]
      split <;> rfl
  | retry =>
      refine ⟨.inl ?_, nofun, nofun⟩
      simp only [Hook.step, Hook.retry]
      split
      · exact (flush_shown s.1).2.1
      · simp only [Hook.refresh]
        split <;> rfl
  | unmount => exact ⟨.inl rfl, nofun, nofun⟩
  | refreshed id legacy answer =>
      have hrefreshed := (refreshed_spec s.1 id legacy answer).2
      cases hrefreshed with
      | same hconfirmed hpreferences =>
          refine ⟨.inl hconfirmed, nofun, ?_⟩
          rintro _ _ _ started ⟨⟩ - -
          exact ⟨hconfirmed, hpreferences⟩
      | @confirmed initialized preferences call hanswer hcall hid hversion hconfirmed hpreferences =>
          refine ⟨.inr ⟨initialized, preferences, by simp [Input.answer?, hanswer], hconfirmed⟩, nofun, ?_⟩
          rintro _ _ _ started ⟨⟩ hstarted hstale
          have hstart := hs.core.starts call hcall
          rw [hid, hversion, hs.core.version] at hstart
          obtain rfl : s.2.completed = started := Option.some.inj (hstart.symm.trans hstarted)
          exact absurd hstale (Nat.lt_irrefl _)
  | written index answer =>
      rcases written_cases hs.flight s.2 index answer with ⟨hge, hsame, -⟩ | ⟨hlt, hw⟩
      · refine ⟨.inl (by rw [Hook.step, hsame]), ?_, nofun⟩
        rintro _ _ _ ⟨⟩ hlt
        omega
      · refine ⟨?_, ?_, nofun⟩
        · rcases hw.confirmed.2 with hsame | ⟨initialized, preferences, rfl, hconfirmed⟩
          · exact .inl hsame
          · exact .inr ⟨initialized, preferences, rfl, hconfirmed⟩
        · rintro _ initialized preferences ⟨⟩ - hactive
          exact hw.confirmed.1 initialized preferences rfl hactive

/-! ### Runs -/

theorem Sound.lawful (hs : Sound s) (hshown : Shown s.1) : Lawful s := by
  obtain ⟨positions, hsorted, -, hsent⟩ := hs.core.sent
  exact ⟨hshown, hs.core.queue, hs.flight.length_le, positions, hsorted, hsent⟩

/-- The page follows the queue exactly as long as no patch that makes a difference is rejected;
all else holds of every run. -/
theorem edits_lawful_iff (inputs : List Input) :
    Along watch Lawful start inputs ∧ Meets watch Fresh start inputs ↔
      Meets watch Harmless start inputs := by
  have hstep : ∀ s input, Sound s → True → Sound (watch s input) := fun _ input hs _ => hs.step input
  have hshown : Along watch (fun s => Shown s.1) start inputs ↔ Meets watch Harmless start inputs :=
    along_iff_meets hstep (fun _ input hs hshown _ => shown_step hs hshown input) sound_start rfl
      meets_true
  have hfresh : Meets watch Fresh start inputs :=
    meets_of_preserved (fun _ input hs _ => ⟨hs.step input, hs.fresh input⟩) sound_start meets_true
  rw [← hshown]
  constructor
  · exact fun h => h.1.mono fun _ hlawful => hlawful.shown
  · intro h
    have hsound := along_of_invariant (P := Sound) (fun _ input hs => hs.step input) sound_start inputs
    exact ⟨(hsound.and h).mono fun s hs => hs.1.lawful hs.2, hfresh⟩

/-- The server refuses to blur an account, and the page still shows it blurred. -/
theorem edits_unlawful :
    ¬ (Along watch Lawful start
        [.refreshed 0 false (.ok true {}), .update { blur := some ⟨"a", true⟩ },
          .written 0 (.apiError 403 "Forbidden")] ∧
      Meets watch Fresh start
        [.refreshed 0 false (.ok true {}), .update { blur := some ⟨"a", true⟩ },
          .written 0 (.apiError 403 "Forbidden")]) := by
  rintro ⟨h, -⟩
  exact absurd h.last.shown (by decide)

end AfkClient.Dashboard

import AfkClient.Library.Run
import AfkClient.Model.StatusPersistence

/-! The writes of an account's status, over every order of requests and outcomes. A late failure
of an older write of the same status makes the queue forget what it was asked for last. -/

namespace AfkClient.StatusPersistence

/-! ### Laws -/

/-- The queue beside all statuses that were requested. -/
structure Traced where
  initial : ClientStatus
  queue : Queue
  requested : List ClientStatus := []
  deriving DecidableEq, Repr

def Traced.step (s : Traced) (input : Input) : Traced :=
  { s with
    queue := s.queue.step input
    requested := match input with
      | .request status => s.requested ++ [status]
      | _ => s.requested }

def Traced.start (initial : ClientStatus) : Traced := { initial, queue := create initial }

/-- The status that was requested last. -/
def Traced.last (s : Traced) : ClientStatus := s.requested.getLastD s.initial

/-- The status in the database. -/
def Traced.stored (s : Traced) : ClientStatus :=
  ((s.queue.links.filter (·.phase = .written)).map (·.status)).getLastD s.initial

/-- The last write that was queued has failed. -/
def Queue.LastFailed (q : Queue) : Prop := ∃ link, q.links.getLast? = some link ∧ link.phase = .failed

/-- A write begins when the ones requested before it have ended. -/
def Serial (links : List Link) : Prop :=
  ∀ (i j : ℕ) (link link' : Link), i < j → links[i]? = some link → links[j]? = some link' →
    link'.phase = .waiting ∨ link.phase.settled

structure Lawful (s : Traced) : Prop where
  serial : Serial s.queue.links
  /-- However they have ended, it can begin. -/
  begins : ∀ (i : ℕ) (link : Link), s.queue.links[i]? = some link → link.phase = .waiting →
    (∀ (j : ℕ) (link' : Link), j < i → s.queue.links[j]? = some link' → link'.phase.settled) →
    (s.queue.begin i).links[i]? = some { link with phase := .writing }
  /-- The last requested status is written again only after a failure of its write. -/
  once : (s.queue.request s.last).links ≠ s.queue.links → s.queue.LastFailed
  stored : (∀ link ∈ s.queue.links, link.phase = .written) → s.stored = s.last
  retried : (∀ link ∈ s.queue.links, link.phase.settled) →
    (s.queue.links.filter (·.status = s.last)).getLast? = some ⟨s.last, .failed⟩ →
    (s.queue.request s.last).links = s.queue.links ++ [⟨s.last, .waiting⟩]

/-- Links are only added, each with the status of its request, and a new status is always added. -/
structure Kept (s : Traced) (input : Input) : Prop where
  links : (s.queue.links.map (·.status)) <+: ((s.step input).queue.links.map (·.status))
  settled : ∀ (i : ℕ) (link : Link), s.queue.links[i]? = some link → link.phase.settled →
    (s.step input).queue.links[i]? = some link
  requested : ∀ status, input = .request status → status ≠ s.last →
    (s.step input).queue.links = s.queue.links ++ [⟨status, .waiting⟩]

/-- No write fails of which a repetition was requested last and is still to be made. -/
def Timely (s : Traced) (input : Input) : Prop :=
  ∀ index status, input = .settle index false → s.queue.links[index]? = some ⟨status, .writing⟩ →
    s.queue.lastRequested = some status → index + 1 = s.queue.links.length

/-! ### Steps of the queue -/

variable {s : Traced} {q : Queue} {index : ℕ} {phase : Phase}

@[simp] theorem setPhase_lastRequested (q : Queue) (index : ℕ) (phase : Phase) :
    (q.setPhase index phase).lastRequested = q.lastRequested := rfl

theorem setPhase_statuses (q : Queue) (index : ℕ) (phase : Phase) :
    (q.setPhase index phase).links.map (·.status) = q.links.map (·.status) := by
  apply List.ext_getElem?
  intro i
  simp only [Queue.setPhase, List.getElem?_map, List.getElem?_modify]
  cases q.links[i]? with
  | none => rfl
  | some link =>
      by_cases hi : index = i <;> simp [hi]

theorem setPhase_of_ne {i : ℕ} (hi : index ≠ i) :
    (q.setPhase index phase).links[i]? = q.links[i]? := by
  simp [Queue.setPhase, hi]

theorem setPhase_self {link : Link} (hlink : q.links[index]? = some link) :
    (q.setPhase index phase).links[index]? = some { link with phase } := by
  simp [Queue.setPhase, hlink]

/-- What an input does: it adds a link, begins one, ends one, or is not due. -/
inductive Moves (q : Queue) (input : Input) : Queue → Prop where
  | same (hkept : ∀ status, input = .request status → q.lastRequested = some status)
      (hidle : ∀ index ok status, input = .settle index ok → q.links[index]? ≠ some ⟨status, .writing⟩) :
      Moves q input q
  | request {status} (hinput : input = .request status) (hnew : q.lastRequested ≠ some status) :
      Moves q input { lastRequested := some status, links := q.links ++ [{ status }] }
  | begin {index status} (hinput : input = .begin index)
      (hlink : q.links[index]? = some ⟨status, .waiting⟩) (hdue : q.due index) :
      Moves q input (q.setPhase index .writing)
  | written {index status} (hinput : input = .settle index true)
      (hlink : q.links[index]? = some ⟨status, .writing⟩) :
      Moves q input (q.setPhase index .written)
  | failed {index status} (hinput : input = .settle index false)
      (hlink : q.links[index]? = some ⟨status, .writing⟩) :
      Moves q input { q.setPhase index .failed with
        lastRequested := if q.lastRequested = some status then none else q.lastRequested }

theorem step_moves (q : Queue) (input : Input) : Moves q input (q.step input) := by
  cases input with
  | request status =>
      simp only [Queue.step, Queue.request]
      split
      · rename_i hlast
        refine .same ?_ nofun
        rintro _ ⟨⟩
        exact hlast
      · rename_i hnew
        exact .request rfl hnew
  | begin index =>
      simp only [Queue.step, Queue.begin]
      split
      · rename_i status hlink
        split
        · rename_i hdue
          exact .begin rfl hlink hdue
        · exact .same nofun nofun
      · exact .same nofun nofun
  | settle index ok =>
      simp only [Queue.step, Queue.settle]
      split
      · rename_i status hlink
        cases ok with
        | true => exact .written rfl hlink
        | false => exact .failed rfl hlink
      · rename_i hidle
        refine .same nofun ?_
        rintro _ _ status ⟨⟩
        exact hidle status

/-! ### Order -/

theorem Serial.before (h : Serial q.links) {link : Link} (hlink : q.links[index]? = some link)
    (hphase : link.phase ≠ .waiting) {i : ℕ} (hi : i < index) {link' : Link}
    (hlink' : q.links[i]? = some link') : link'.phase.settled :=
  (h i index link' link hi hlink' hlink).resolve_left hphase

/-- Behind a settled promise all are settled. -/
theorem Serial.due (h : Serial q.links) (hdue : q.due index) {i : ℕ} (hi : i < index) {link : Link}
    (hlink : q.links[i]? = some link) : link.phase.settled := by
  simp only [Queue.due, Bool.or_eq_true, decide_eq_true_eq, Option.any_eq_true] at hdue
  rcases hdue with rfl | ⟨previous, hprevious, hsettled⟩
  · exact absurd hi (Nat.not_lt_zero i)
  · rcases Nat.lt_or_eq_of_le (Nat.le_sub_one_of_lt hi) with hlt | rfl
    · refine h.before hprevious ?_ hlt hlink
      intro hwaiting
      simp [hwaiting, Phase.settled] at hsettled
    · obtain rfl : link = previous := Option.some.inj (hlink.symm.trans hprevious)
      exact hsettled

theorem Serial.setPhase (h : Serial q.links)
    (hbefore : ∀ i (link : Link), i < index → q.links[i]? = some link → link.phase.settled)
    (hafter : phase.settled ∨ ∀ j (link : Link), index < j → q.links[j]? = some link →
      link.phase = .waiting) : Serial (q.setPhase index phase).links := by
  intro i j link link' hij hi hj
  by_cases hii : index = i
  · subst hii
    rw [setPhase_of_ne (Nat.ne_of_lt hij)] at hj
    rcases hafter with hsettled | hwaiting
    · right
      obtain ⟨old, hold⟩ : ∃ old, q.links[index]? = some old := by
        cases hold : q.links[index]? with
        | none => simp [Queue.setPhase, hold] at hi
        | some old => exact ⟨old, rfl⟩
      rw [setPhase_self hold] at hi
      obtain rfl := Option.some.inj hi
      exact hsettled
    · exact .inl (hwaiting j link' hij hj)
  · rw [setPhase_of_ne hii] at hi
    by_cases hjj : index = j
    · subst hjj
      exact .inr (hbefore i link hij hi)
    · rw [setPhase_of_ne hjj] at hj
      exact h i j link link' hij hi hj

theorem Serial.concat (h : Serial q.links) (status : ClientStatus) :
    Serial (q.links ++ [⟨status, .waiting⟩]) := by
  intro i j link link' hij hi hj
  rcases Nat.lt_or_ge j q.links.length with hlt | hge
  · rw [List.getElem?_append_left (hij.trans hlt)] at hi
    rw [List.getElem?_append_left hlt] at hj
    exact h i j link link' hij hi hj
  · rw [List.getElem?_append_right hge] at hj
    obtain rfl : link' = ⟨status, .waiting⟩ := by simpa using List.mem_of_getElem? hj
    exact .inl rfl

theorem Serial.after (h : Serial q.links) {link : Link} (hlink : q.links[index]? = some link)
    (hphase : link.phase.settled = false) {j : ℕ} (hj : index < j) {link' : Link}
    (hlink' : q.links[j]? = some link') : link'.phase = .waiting := by
  rcases h index j link link' hj hlink hlink' with hwaiting | hsettled
  · exact hwaiting
  · cases hphase.symm.trans hsettled

theorem Serial.step (h : Serial q.links) (input : Input) : Serial (q.step input).links := by
  have hmoves := step_moves q input
  generalize q.step input = q' at hmoves ⊢
  cases hmoves with
  | same => exact h
  | request => exact h.concat _
  | begin hinput hlink hdue =>
      refine h.setPhase (fun i link hi hlink' => h.due hdue hi hlink') (.inr ?_)
      exact fun j link' hj hlink' => h.after hlink rfl hj hlink'
  | written hinput hlink =>
      exact h.setPhase (fun i link' hi hlink' => h.before hlink nofun hi hlink') (.inl rfl)
  | failed hinput hlink =>
      exact h.setPhase (fun i link' hi hlink' => h.before hlink nofun hi hlink') (.inl rfl)

/-! ### The last request -/

/-- What the queue was asked for last is what it was asked for, if it remembers it. -/
structure Sound (s : Traced) : Prop where
  serial : Serial s.queue.links
  last : (s.queue.links.map (·.status)).getLastD s.initial = s.last
  remembered : ∀ status, s.queue.lastRequested = some status → status = s.last
  forgotten : s.queue.LastFailed → s.queue.lastRequested = none

/-- A repetition of the last request is recognized, or its write has failed. -/
def Deduplicated (s : Traced) : Prop := s.queue.lastRequested = none → s.queue.LastFailed

theorem sound_start (initial : ClientStatus) : Sound (.start initial) := by
  refine ⟨by simp [Serial, Traced.start, create], rfl, ?_, ?_⟩
  · rintro status ⟨⟩
    rfl
  · rintro ⟨link, hlink, -⟩
    cases hlink

theorem last_eq (hs : Sound s) {link : Link} (hlink : s.queue.links.getLast? = some link) :
    link.status = s.last := by
  have hlast := hs.last
  rw [List.getLastD_eq_getLast?, List.getLast?_map, hlink] at hlast
  exact hlast

theorem lastFailed_iff : q.LastFailed ↔
    ∃ link, q.links[q.links.length - 1]? = some link ∧ link.phase = .failed := by
  unfold Queue.LastFailed
  rw [List.getLast?_eq_getElem?]

/-- A link that is not the last one does not matter for it. -/
theorem lastFailed_setPhase (hindex : index + 1 < q.links.length) :
    (q.setPhase index phase).LastFailed ↔ q.LastFailed := by
  have hlength : (q.setPhase index phase).links.length = q.links.length := by simp [Queue.setPhase]
  rw [lastFailed_iff, lastFailed_iff, hlength, setPhase_of_ne (by omega)]

theorem lastFailed_setPhase_last {link : Link} (hlink : q.links[index]? = some link)
    (hindex : index + 1 = q.links.length) : (q.setPhase index phase).LastFailed ↔ phase = .failed := by
  have hlength : (q.setPhase index phase).links.length - 1 = index := by
    rw [Queue.setPhase, List.length_modify]
    omega
  rw [lastFailed_iff, hlength, setPhase_self hlink]
  simp

theorem not_lastFailed {link : Link} (hlink : q.links[index]? = some link)
    (hindex : index + 1 = q.links.length) (hphase : link.phase ≠ .failed) : ¬ q.LastFailed := by
  rintro ⟨last, hlast, hfailed⟩
  rw [List.getLast?_eq_getElem?, show q.links.length - 1 = index by omega, hlink] at hlast
  exact hphase (Option.some.inj hlast ▸ hfailed)

/-- Behind a link that has not ended, none has failed. -/
theorem Serial.not_lastFailed (h : Serial q.links) {link : Link} (hlink : q.links[index]? = some link)
    (hphase : link.phase.settled = false) : ¬ q.LastFailed := by
  have hlt := (List.getElem?_eq_some_iff.mp hlink).1
  rcases Nat.lt_or_eq_of_le (Nat.succ_le_of_lt hlt) with hless | heq
  · rw [lastFailed_iff]
    rintro ⟨last, hlast, hfailed⟩
    have hwaiting := h.after hlink hphase (by omega) hlast
    cases hwaiting.symm.trans hfailed
  · refine StatusPersistence.not_lastFailed hlink heq ?_
    rintro hfailed
    simp [hfailed, Phase.settled] at hphase

/-- A request adds itself to the requests, and nothing else does. -/
theorem Traced.step_last (s : Traced) (input : Input) : (s.step input).last =
    match input with
    | .request status => status
    | _ => s.last := by
  cases input with
  | request status => simp [Traced.last, Traced.step]
  | _ => rfl

theorem Sound.step (hs : Sound s) (input : Input) : Sound (s.step input) := by
  have hserial := hs.serial.step input
  have hlast := s.step_last input
  have hmoves := step_moves s.queue input
  have hinitial : (s.step input).initial = s.initial := rfl
  have hqueue : (s.step input).queue = s.queue.step input := rfl
  rw [← hqueue] at hserial hmoves
  generalize s.step input = s' at hserial hlast hmoves hinitial hqueue ⊢
  obtain ⟨initial, q', requested⟩ := s'
  obtain rfl : initial = s.initial := hinitial
  clear hqueue
  change Moves s.queue input q' at hmoves
  cases hmoves with
  | same hkept =>
      have hsame : (Traced.mk s.initial s.queue requested).last = s.last := by
        rw [hlast]
        cases input with
        | request status => exact hs.remembered status (hkept status rfl)
        | _ => rfl
      exact ⟨hserial, hs.last.trans hsame.symm, fun status h => (hs.remembered status h).trans hsame.symm,
        hs.forgotten⟩
  | @request status hinput hnew =>
      subst hinput
      refine ⟨hserial, ?_, ?_, ?_⟩
      · rw [hlast, List.map_append, List.map_singleton, List.getLastD_concat]
      · rintro _ ⟨⟩
        exact hlast.symm
      · rintro ⟨link, hlink, hfailed⟩
        obtain rfl : link = ⟨status, .waiting⟩ := by simpa using hlink.symm
        cases hfailed
  | @begin index status hinput hlink hdue =>
      subst hinput
      refine ⟨hserial, ?_, ?_, ?_⟩
      · rw [setPhase_statuses, hlast]
        exact hs.last
      · rw [hlast]
        exact hs.remembered
      · intro hfailed
        refine absurd hfailed (hserial.not_lastFailed (setPhase_self hlink) rfl)
  | @written index status hinput hlink =>
      subst hinput
      refine ⟨hserial, ?_, ?_, ?_⟩
      · rw [setPhase_statuses, hlast]
        exact hs.last
      · rw [hlast]
        exact hs.remembered
      · intro hfailed
        have hlt := (List.getElem?_eq_some_iff.mp hlink).1
        rcases Nat.lt_or_eq_of_le (Nat.succ_le_of_lt hlt) with hless | heq
        · exact hs.forgotten ((lastFailed_setPhase hless).mp hfailed)
        · cases (lastFailed_setPhase_last hlink heq).mp hfailed
  | @failed index status hinput hlink =>
      subst hinput
      refine ⟨hserial, ?_, ?_, ?_⟩
      · change (((s.queue.setPhase index .failed).links.map (·.status)).getLastD s.initial) = _
        rw [setPhase_statuses, hlast]
        exact hs.last
      · rw [hlast]
        intro status' hstatus'
        refine hs.remembered status' ?_
        change (if _ then _ else _) = _ at hstatus'
        split at hstatus'
        · cases hstatus'
        · exact hstatus'
      · intro hfailed
        change (if _ then _ else _) = _
        split
        · rfl
        · rename_i hother
          have hlt := (List.getElem?_eq_some_iff.mp hlink).1
          rcases Nat.lt_or_eq_of_le (Nat.succ_le_of_lt hlt) with hless | heq
          · exact hs.forgotten ((lastFailed_setPhase hless).mp hfailed)
          · -- the last write that was queued is that of the last request
            have hgetLast : s.queue.links.getLast? = some ⟨status, .writing⟩ := by
              rw [List.getLast?_eq_getElem?, show s.queue.links.length - 1 = index by omega, hlink]
            cases hremembered : s.queue.lastRequested with
            | none => rfl
            | some status' =>
                have hstatus := hs.remembered status' hremembered
                have hsame := last_eq hs hgetLast
                exact absurd (hremembered.trans (by rw [hstatus, ← hsame])) hother

theorem deduplicated_step (hs : Sound s) (hd : Deduplicated s) (input : Input) :
    Deduplicated (s.step input) ↔ Timely s input := by
  have hmoves := step_moves s.queue input
  have hqueue : (s.step input).queue = s.queue.step input := rfl
  unfold Deduplicated at hd ⊢
  rw [hqueue]
  generalize s.queue.step input = q' at hmoves ⊢
  cases hmoves with
  | same hkept hidle =>
      refine iff_of_true hd fun index status hinput hlink => ?_
      exact absurd hlink (hidle index false status hinput)
  | @request status hinput hnew => exact iff_of_true nofun (hinput ▸ nofun)
  | @begin index status hinput hlink hdue =>
      refine iff_of_true (fun hnone => ?_) (hinput ▸ nofun)
      exact absurd (hd hnone) (hs.serial.not_lastFailed hlink rfl)
  | @written index status hinput hlink =>
      refine iff_of_true (fun hnone => ?_) (hinput ▸ nofun)
      exact absurd (hd hnone) (hs.serial.not_lastFailed hlink rfl)
  | @failed index status hinput hlink =>
      subst hinput
      have hrunning := hs.serial.not_lastFailed hlink rfl
      by_cases hremembered : s.queue.lastRequested = some status
      · have hlt := (List.getElem?_eq_some_iff.mp hlink).1
        simp only [hremembered, if_true, forall_const]
        rcases Nat.lt_or_eq_of_le (Nat.succ_le_of_lt hlt) with hless | heq
        · refine iff_of_false (fun hfailed => hrunning ((lastFailed_setPhase hless).mp hfailed)) ?_
          exact fun htimely => absurd (htimely index status rfl hlink hremembered) (Nat.ne_of_lt hless)
        · refine iff_of_true ((lastFailed_setPhase_last hlink heq).mpr rfl) ?_
          rintro _ _ ⟨⟩ - -
          exact heq
      · rw [if_neg hremembered]
        refine iff_of_true (fun hnone => absurd (hd hnone) hrunning) ?_
        rintro _ status' ⟨⟩ hlink' hremembered'
        obtain ⟨rfl, -⟩ := Link.mk.inj (Option.some.inj (hlink.symm.trans hlink'))
        exact absurd hremembered' hremembered

/-! ### Runs -/

/-- The promise in front of the link is fulfilled once all links before it have ended. -/
theorem begin_of_waiting {link : Link} (hlink : q.links[index]? = some link)
    (hphase : link.phase = .waiting)
    (hbefore : ∀ (j : ℕ) (link' : Link), j < index → q.links[j]? = some link' → link'.phase.settled) :
    (q.begin index).links[index]? = some { link with phase := .writing } := by
  obtain ⟨status, phase⟩ := link
  obtain rfl : phase = .waiting := hphase
  have hdue : q.due index := by
    cases index with
    | zero => rfl
    | succ i =>
        have hlt : i < q.links.length := Nat.lt_of_succ_lt (List.getElem?_eq_some_iff.mp hlink).1
        simp only [Queue.due, Nat.succ_ne_zero, decide_false, Bool.false_or, Nat.add_sub_cancel,
          List.getElem?_eq_getElem hlt, Option.any_some]
        exact hbefore i _ (Nat.lt_succ_self i) (List.getElem?_eq_getElem hlt)
  simp only [Queue.begin, hlink, hdue, if_true]
  exact setPhase_self hlink

theorem Sound.once_iff (hs : Sound s) :
    ((s.queue.request s.last).links ≠ s.queue.links → s.queue.LastFailed) ↔ Deduplicated s := by
  unfold Deduplicated Queue.request
  cases hremembered : s.queue.lastRequested with
  | none => simp
  | some status =>
      obtain rfl := hs.remembered status hremembered
      simp

theorem Sound.stored_eq (hs : Sound s) (hwritten : ∀ link ∈ s.queue.links, link.phase = .written) :
    s.stored = s.last := by
  have hall : s.queue.links.filter (·.phase = .written) = s.queue.links :=
    List.filter_eq_self.mpr (by simpa using hwritten)
  rw [Traced.stored, hall, hs.last]

theorem Sound.retried (hs : Sound s)
    (hfailed : (s.queue.links.filter (·.status = s.last)).getLast? = some ⟨s.last, .failed⟩) :
    (s.queue.request s.last).links = s.queue.links ++ [⟨s.last, .waiting⟩] := by
  have hlastFailed : s.queue.LastFailed := by
    cases hlinks : s.queue.links.getLast? with
    | none => simp [List.getLast?_eq_none_iff.mp hlinks] at hfailed
    | some link =>
        refine ⟨link, hlinks, ?_⟩
        have hstatus := last_eq hs hlinks
        obtain ⟨before, hbefore⟩ := List.getLast?_eq_some_iff.mp hlinks
        have hsame : link = ⟨s.last, .failed⟩ := by simpa [hbefore, hstatus] using hfailed
        rw [hsame]
  simp [Queue.request, hs.forgotten hlastFailed]

theorem Sound.lawful (hs : Sound s) (hd : Deduplicated s) : Lawful s :=
  ⟨hs.serial, fun _ _ => begin_of_waiting, hs.once_iff.mpr hd, hs.stored_eq, fun _ => hs.retried⟩

theorem Sound.kept (hs : Sound s) (input : Input) : Kept s input := by
  have hmoves := step_moves s.queue input
  have hqueue : (s.step input).queue = s.queue.step input := rfl
  have hset : ∀ {index : ℕ} {phase : Phase} {link : Link}, s.queue.links[index]? = some link →
      link.phase.settled = false → ∀ (i : ℕ) (link' : Link), s.queue.links[i]? = some link' →
      link'.phase.settled → (s.queue.setPhase index phase).links[i]? = some link' := by
    intro index phase link hlink hphase i link' hlink' hsettled
    rw [setPhase_of_ne, hlink']
    rintro rfl
    obtain rfl := Option.some.inj (hlink.symm.trans hlink')
    cases hphase.symm.trans hsettled
  refine ⟨?_, ?_, ?_⟩ <;> rw [hqueue] <;> generalize s.queue.step input = q' at hmoves
  · cases hmoves with
    | same => exact List.prefix_refl _
    | request => exact (List.prefix_append _ _).map _
    | _ => exact (setPhase_statuses _ _ _) ▸ List.prefix_refl _
  · cases hmoves with
    | same => exact fun _ _ hlink _ => hlink
    | request =>
        intro i link hlink _
        rw [List.getElem?_append_left (List.getElem?_eq_some_iff.mp hlink).1, hlink]
    | begin hinput hlink => exact hset hlink rfl
    | written hinput hlink => exact hset hlink rfl
    | failed hinput hlink => exact hset hlink rfl
  · rintro status rfl hnew
    cases hmoves with
    | same hkept => exact absurd (hs.remembered status (hkept status rfl)) hnew
    | request hinput =>
        cases hinput
        rfl
    | begin hinput => cases hinput
    | written hinput => cases hinput
    | failed hinput => cases hinput

/-- A status is requested from the database once, as long as no write of it fails late;
all else holds of every run. -/
theorem writes_lawful_iff (initial : ClientStatus) (inputs : List Input) :
    Along Traced.step Lawful (.start initial) inputs ∧ Meets Traced.step Kept (.start initial) inputs ↔
      Meets Traced.step Timely (.start initial) inputs := by
  have hstep : ∀ s input, Sound s → True → Sound (s.step input) := fun _ input hs _ => hs.step input
  have hdeduplicated : Along Traced.step Deduplicated (.start initial) inputs ↔
      Meets Traced.step Timely (.start initial) inputs :=
    along_iff_meets hstep (fun _ input hs hd _ => deduplicated_step hs hd input)
      (sound_start initial) nofun meets_true
  have hkept : Meets Traced.step Kept (.start initial) inputs :=
    meets_of_preserved (fun _ input hs _ => ⟨hs.step input, hs.kept input⟩) (sound_start initial)
      meets_true
  have hsound := along_of_invariant (P := Sound) (fun _ input hs => hs.step input)
    (sound_start initial) inputs
  rw [← hdeduplicated]
  constructor
  · exact fun h => (hsound.and h.1).mono fun s hs => hs.1.once_iff.mp hs.2.once
  · exact fun h => ⟨(hsound.and h).mono fun s hs => hs.1.lawful hs.2, hkept⟩

/-- The first of two writes of `online` fails while the second one waits, and the next report of
that status asks for a third. -/
theorem writes_unlawful :
    ¬ (Along Traced.step Lawful (.start .offline)
        [.request .online, .begin 0, .request .offline, .request .online, .settle 0 false] ∧
      Meets Traced.step Kept (.start .offline)
        [.request .online, .begin 0, .request .offline, .request .online, .settle 0 false]) := by
  rintro ⟨h, -⟩
  obtain ⟨link, hlink, hfailed⟩ := h.last.once (by decide)
  obtain rfl : ⟨.online, .waiting⟩ = link := Option.some.inj hlink
  cases hfailed

end AfkClient.StatusPersistence

import AfkClient.Verification.BufferedWriter.Batches
import Mathlib.Data.List.Nodup
import Mathlib.Tactic.Linarith

/-! No item is lost, written twice or left behind. -/

namespace AfkClient.BufferedWriter

variable {α : Type*} {batchSize : ℕ} {s t : State α}

/-! ### The work that is left -/

def Phase.work : Phase α → ℕ
  | .writing batch rest => 5 * batch.length + 4 * rest.length
  | .next rest => 4 * rest.length + 2

def load (s : State α) : ℕ :=
  6 * s.queue.length + (s.saves.map (·.phase.work)).sum + s.timer.toNat

/-- The flushes that have not returned. -/
def unreturned (s : State α) : ℕ := s.flushes.countP (! ·.resolved)

/-- The flushes that can go on. -/
def ready (s : State α) : ℕ := s.flushes.countP fun call => ! call.resolved && s.isDone call.awaits

/-- A bound for the steps that are due before there is nothing left to do. -/
def remaining (s : State α) : ℕ := load s * (unreturned s + 1) + ready s

theorem ready_le (s : State α) : ready s ≤ unreturned s :=
  List.countP_mono_left fun call _ h => by simp_all

/-- Less work outweighs flushes that can go on. -/
theorem remaining_lt (hload : load t < load s) (hflushes : unreturned t ≤ unreturned s) :
    remaining t < remaining s := by
  have hready := ready_le t
  have hmul : (load t + 1) * (unreturned t + 1) ≤ load s * (unreturned s + 1) :=
    Nat.mul_le_mul hload (Nat.succ_le_succ hflushes)
  rw [Nat.add_mul, Nat.one_mul] at hmul
  rw [remaining, remaining]
  omega

theorem remaining_lt_of_ready (hload : load t ≤ load s) (hflushes : unreturned t ≤ unreturned s)
    (hready : ready t < ready s) : remaining t < remaining s := by
  have hmul := Nat.mul_le_mul hload (Nat.succ_le_succ hflushes)
  rw [remaining, remaining]
  simp only [Nat.succ_eq_add_one] at hmul
  omega

theorem load_schedule : load (schedule s) ≤ load s + 1 := by
  rw [schedule]
  split
  · rename_i hset
    simp only [Bool.and_eq_true, Bool.not_eq_true'] at hset
    simp [load, hset.1.1]
  · omega

theorem load_drain : load (drain batchSize s).1 ≤ load s := by
  rcases drain_cases batchSize s with ⟨-, heq⟩ | ⟨-, -, heq⟩ | ⟨-, -, heq⟩
  · rw [heq]
  · rw [heq]
  · rw [heq]
    simp only [load, List.map_append, List.map_cons, List.map_nil, List.sum_append, List.sum_cons,
      List.sum_nil, Phase.work, List.length_take, List.length_drop, List.length_nil]
    omega

/-- A save that starts costs less than its entries in the queue. -/
theorem load_drain_lt (hrunning : s.running = none) (hsize : 1 ≤ batchSize)
    (hqueue : s.queue ≠ []) :
    load (drain batchSize s).1 < load s := by
  have hlength := List.length_pos_iff.mpr hqueue
  rcases drain_cases batchSize s with ⟨hsome, -⟩ | ⟨-, hempty, -⟩ | ⟨-, -, heq⟩
  · simp [hrunning] at hsome
  · rcases List.take_eq_nil_iff.mp hempty with hzero | hnil
    · omega
    · exact absurd hnil hqueue
  · rw [heq]
    simp only [load, List.map_append, List.map_cons, List.map_nil, List.sum_append, List.sum_cons,
      List.sum_nil, Phase.work, List.length_take, List.length_drop, List.length_nil]
    omega

theorem load_clear : load { s with timer := false } + s.timer.toNat = load s := by
  simp [load]

theorem load_written {number : ℕ} {batch rest : List (Entry α)} (ok : Bool)
    (h : Items batchSize s)
    (hfind : s.saves.find? (·.number = number) = some ⟨number, .writing batch rest⟩) :
    load (written number batch rest ok s) < load s := by
  obtain ⟨hsaves, -, -, hlength, -, hrest⟩ := h.only hfind
  rcases written_cases number batch rest ok s hlength with
    ⟨-, heq⟩ | ⟨-, entry, rfl, heq⟩ | ⟨-, entry, other, more, rfl, heq⟩
  · rw [heq, setPhase_only (by exact hsaves)]
    simp only [load, settle, hsaves, List.map_cons, List.map_nil, List.sum_cons, List.sum_nil,
      Phase.work]
    omega
  · rw [heq, setPhase_only (by exact hsaves)]
    simp only [load, settle, hsaves, List.map_cons, List.map_nil, List.sum_cons, List.sum_nil,
      Phase.work, List.length_singleton]
    omega
  · obtain rfl : rest = [] := hrest.resolve_right (by simp)
    rw [heq, setPhase_only (by exact hsaves)]
    simp only [load, hsaves, List.map_cons, List.map_nil, List.sum_cons, List.sum_nil,
      Phase.work, List.length_cons, List.length_nil, List.append_nil]
    omega

theorem load_proceed {number : ℕ} {entry : Entry α} {rest : List (Entry α)} (h : Items batchSize s)
    (hfind : s.saves.find? (·.number = number) = some ⟨number, .next (entry :: rest)⟩) :
    load (setPhase number (.writing [entry] rest) s) < load s := by
  obtain ⟨hsaves, -⟩ := h.only hfind
  rw [setPhase_only hsaves]
  simp only [load, hsaves, List.map_cons, List.map_nil, List.sum_cons, List.sum_nil, Phase.work,
    List.length_cons, List.length_nil]
  omega

theorem load_finish {number : ℕ} (h : Items batchSize s)
    (hfind : s.saves.find? (·.number = number) = some ⟨number, .next []⟩) :
    load (finish number s) < load s := by
  obtain ⟨hsaves, -⟩ := h.only hfind
  have hschedule := load_schedule (s := { s with
    saves := s.saves.filter (·.number ≠ number), running := none })
  have hless : load { s with saves := s.saves.filter (·.number ≠ number), running := none } + 2 =
      load s := by
    simp only [load, hsaves, List.map_cons, List.map_nil, List.sum_cons, List.sum_nil, Phase.work,
      List.length_nil]
    simp
    omega
  rw [finish]
  omega

/-! ### What is due does something -/

theorem unreturned_of_flushes (h : t.flushes = s.flushes) : unreturned t = unreturned s := by
  rw [unreturned, unreturned, h]

theorem unreturned_set {k : ℕ} {call : Flush} (other : Flush) (hcall : s.flushes[k]? = some call)
    (hopen : call.resolved = false) :
    unreturned { s with flushes := s.flushes.set k other } + 1 =
      unreturned s + (! other.resolved).toNat := by
  obtain ⟨hk, hget⟩ := List.getElem?_eq_some_iff.mp hcall
  have hpos : 0 < s.flushes.countP (! ·.resolved) :=
    List.countP_pos_iff.mpr ⟨call, List.mem_of_getElem? hcall, by simp [hopen]⟩
  simp only [unreturned, List.countP_set hk, hget, hopen, Bool.not_false, if_true]
  cases other.resolved <;> simp <;> omega

/-- A flush that goes on and does not return is not ready any more, or it has started a save. -/
theorem ready_set {k : ℕ} {call : Flush} (other : Flush) (hcall : s.flushes[k]? = some call)
    (hopen : call.resolved = false) (hdone : s.isDone call.awaits = true)
    (hother : other.resolved = true ∨ s.isDone other.awaits = false) :
    ready { s with flushes := s.flushes.set k other } + 1 = ready s := by
  obtain ⟨hk, hget⟩ := List.getElem?_eq_some_iff.mp hcall
  have hpos : 0 < s.flushes.countP fun call => ! call.resolved && s.isDone call.awaits :=
    List.countP_pos_iff.mpr ⟨call, List.mem_of_getElem? hcall, by simp [hopen, hdone]⟩
  have hnot : (! other.resolved && s.isDone other.awaits) = false := by
    rcases hother with h | h <;> simp [h]
  simp only [ready, State.isDone] at hdone hnot hpos ⊢
  simp only [List.countP_set hk, hget, hopen, hdone, hnot, Bool.not_false, Bool.and_self, if_true]
  simp only [Bool.false_eq_true, if_false]
  omega

theorem remaining_set {k : ℕ} {call : Flush} (other : Flush) (hcall : s.flushes[k]? = some call)
    (hopen : call.resolved = false) (hdone : s.isDone call.awaits = true)
    (hother : other.resolved = true ∨ s.isDone other.awaits = false) :
    remaining { s with timer := false, flushes := s.flushes.set k other } < remaining s := by
  have hload : load { s with flushes := s.flushes.set k other, timer := false } ≤ load s :=
    Nat.le.intro load_clear
  have hready := ready_set other hcall hopen hdone hother
  have hset := unreturned_set other hcall hopen
  have hflag : (! other.resolved).toNat ≤ 1 := Bool.toNat_le _
  have hflushes : unreturned { s with flushes := s.flushes.set k other } ≤ unreturned s := by omega
  have hless : ready { s with flushes := s.flushes.set k other } < ready s := by omega
  exact remaining_lt_of_ready hload hflushes hless

theorem remaining_resume (hsize : 1 ≤ batchSize) (h : Orderly batchSize s) {k : ℕ} {call : Flush}
    (hcall : s.flushes[k]? = some call) (hopen : call.resolved = false)
    (hdone : s.isDone call.awaits = true) :
      remaining (resume batchSize k call s) < remaining s := by
  rw [resume]
  split
  · rename_i hloop
    cases hrunning : s.running with
    | none =>
        -- a new save takes entries from the queue
        have hqueue : s.queue ≠ [] := by simpa [hrunning] using hloop
        have hless : load (flushTurn batchSize s).1 < load s := by
          have hdrain := load_drain_lt (s := { s with timer := false }) hrunning hsize hqueue
          have hclear := load_clear (s := s)
          rw [flushTurn]
          omega
        refine remaining_lt hless ?_
        have hflushes := (flushTurn_frame batchSize s).1
        have hset := unreturned_set { call with awaits := (flushTurn batchSize s).2 } hcall hopen
        simp only [unreturned, hopen, Bool.not_false, Bool.toNat_true] at hset ⊢
        rw [hflushes]
        omega
    | some number =>
        -- the flush awaits the save that is running
        have hturn : flushTurn batchSize s = ({ s with timer := false }, some number) := by
          simp [flushTurn, drain, hrunning]
        have hwaits : s.isDone (some number) = false := by
          rcases h.items.saves with ⟨hnone, -⟩ | ⟨save, hsaves, hsome, -⟩
          · simp [hrunning] at hnone
          · obtain rfl := Option.some.inj (hrunning.symm.trans hsome)
            simp [State.isDone, hsaves]
        rw [hturn]
        exact remaining_set { call with awaits := some number } hcall hopen hdone (.inr hwaits)
  · exact remaining_set { call with resolved := true } hcall hopen hdone (.inl rfl)

theorem remaining_step (hsize : 1 ≤ batchSize) (h : Orderly batchSize s) {i : Input α}
    (hdue : Due s i) : remaining (step batchSize s i) < remaining s := by
  cases i with
  | enqueue item => exact hdue.elim
  | flush => exact hdue.elim
  | timer =>
      have htimer : s.timer = true := hdue
      have hless : load (drain batchSize { s with timer := false }).1 < load s := by
        have hdrain : load (drain batchSize { s with timer := false }).1 ≤
          load { s with timer := false } := load_drain
        have hclear := load_clear (s := s)
        rw [htimer, Bool.toNat_true] at hclear
        omega
      simp only [step, htimer, if_true]
      exact remaining_lt hless (unreturned_of_flushes (flushTurn_frame batchSize s).1).le
  | outcome number ok =>
      obtain ⟨batch, rest, hmem⟩ := hdue
      have hfind := h.items.find_of_mem hmem
      simp only [step, hfind]
      exact remaining_lt (load_written ok h.items hfind)
        (unreturned_of_flushes (written_frame number batch rest ok s).2.2.2.1).le
  | proceed number =>
      obtain ⟨rest, hmem⟩ := hdue
      have hfind := h.items.find_of_mem hmem
      cases rest with
      | nil =>
          simp only [step, hfind]
          exact remaining_lt (load_finish h.items hfind) (unreturned_of_flushes schedule_frame.1).le
      | cons entry rest =>
          simp only [step, hfind]
          exact remaining_lt (load_proceed h.items hfind) le_rfl
  | resume k =>
      obtain ⟨call, hcall, hopen, hdone⟩ := hdue
      simp only [step, hcall, hopen, hdone, Bool.not_false, Bool.and_self, if_true]
      exact remaining_resume hsize h hcall hopen hdone

/-- Without new calls everything comes to an end, whatever the order. -/
theorem length_le_remaining (hsize : 1 ≤ batchSize) (h : Orderly batchSize s) {is : List (Input α)}
    (hdue : Meets (step batchSize) Due s is) : is.length ≤ remaining s := by
  induction is generalizing s with
  | nil => simp
  | cons i is ih =>
      obtain ⟨hi, his⟩ := hdue
      have hless := remaining_step hsize h hi
      have hrest := ih (h.step hsize i) his
      simp only [List.length_cons]
      omega

/-- When nothing is due, everything is settled and every flush has returned. -/
theorem settled_of_idle (h : Orderly batchSize s) (hidle : ∀ i, ¬ Due s i) :
    (∀ id < s.enqueued.length, id ∈ s.settled.map (·.1.id)) ∧
      ∀ call ∈ s.flushes, call.resolved = true := by
  have hsaves : s.running = none ∧ s.saves = [] := by
    rcases h.items.saves with hnone | ⟨⟨number, phase⟩, hsaves, -, -⟩
    · exact hnone
    · cases phase with
      | writing batch rest =>
          exact absurd ⟨batch, rest, by simp [hsaves]⟩ (hidle (.outcome number true))
      | next rest => exact absurd ⟨rest, by simp [hsaves]⟩ (hidle (.proceed number))
  have hqueue : s.queue = [] := by
    by_contra hne
    rcases h.timed.alive hne with htimer | hrunning
    · exact hidle .timer htimer
    · simp [hsaves.1] at hrunning
  refine ⟨h.items.settled hqueue hsaves.1, fun call hcall => ?_⟩
  obtain ⟨k, hk⟩ := List.mem_iff_getElem?.mp hcall
  by_contra hopen
  exact hidle (.resume k) ⟨call, hk, by simpa using hopen, by simp [State.isDone, hsaves.2]⟩

/-! ### What the writer promises -/

/-- The batches of the writes that wait. -/
def State.inFlight (s : State α) : List (List (Entry α)) := s.saves.filterMap fun save =>
  match save.phase with
  | .writing batch _ => some batch
  | .next _ => none

def State.isSettled (s : State α) (id : ℕ) : Prop := id ∈ s.settled.map (·.1.id)

def State.isResolved (s : State α) (id : ℕ) : Prop := ∃ item, (⟨id, item⟩, true) ∈ s.settled

/-- The successful writes that contain the item. -/
def State.writesOf (s : State α) (id : ℕ) : List (Write α) :=
  s.writes.filter fun write => write.ok && write.batch.any (·.id = id)

structure Promises (batchSize : ℕ) (s : State α) : Prop where
  oneInFlight : s.inFlight.length ≤ 1
  bounded : ∀ batch ∈ s.inFlight ++ s.writes.map Write.batch, batch.length ≤ batchSize
  settledOnce : (s.settled.map (·.1.id)).Nodup
  enqueued : ∀ entry ok, (entry, ok) ∈ s.settled → s.enqueued[entry.id]? = some entry.item
  resolved : ∀ id, s.isResolved id ↔ (s.writesOf id).length = 1
  rejected : ∀ entry, (entry, false) ∈ s.settled → ⟨[entry], false⟩ ∈ s.writes
  ordered : (((s.writes.filter (·.ok)).flatMap Write.batch).map Entry.id).Pairwise (· < ·)
  flushed : ∀ call ∈ s.flushes, call.resolved → ∀ id < call.before, s.isSettled id
  pending : s.queue ≠ [] → s.timer ∨ s.running.isSome

theorem ids_eq (h : Items batchSize s) :
    (entries s).map Entry.id = List.range s.enqueued.length := by
  rw [h.order]
  refine List.ext_getElem (by simp) fun i hi hi' => by simp

theorem ids_settled (h : Items batchSize s) :
    (s.settled.map (·.1.id)).Sublist (List.range s.enqueued.length) := by
  rw [← ids_eq h, entries, List.append_assoc, List.map_append, List.map_map]
  exact List.sublist_append_left _ _

theorem ids_written (h : Items batchSize s) :
    (((s.writes.filter (·.ok)).flatMap Write.batch).map Entry.id).Sublist
      (List.range s.enqueued.length) := by
  rw [h.saved, List.map_map]
  exact (List.filter_sublist.map _).trans (ids_settled h)

/-- Among batches without a common entry, one contains what any contains. -/
theorem length_filter_eq_one {ws : List (Write α)} {id : ℕ}
    (hnodup : ((ws.flatMap Write.batch).map Entry.id).Nodup) :
    (ws.filter fun write => write.batch.any (·.id = id)).length = 1 ↔
      id ∈ (ws.flatMap Write.batch).map Entry.id := by
  induction ws with
  | nil => simp
  | cons write ws ih =>
      rw [List.flatMap_cons, List.map_append] at hnodup ⊢
      obtain ⟨-, hrest, hdisjoint⟩ := List.nodup_append.mp hnodup
      by_cases hmem : id ∈ write.batch.map Entry.id
      · have hany : write.batch.any (·.id = id) := by
          obtain ⟨entry, hentry, hid⟩ := List.mem_map.mp hmem
          exact List.any_eq_true.mpr ⟨entry, hentry, by simpa using hid⟩
        have hnone : (ws.filter fun write => write.batch.any (·.id = id)) = [] := by
          rw [List.filter_eq_nil_iff]
          intro other hother hcontains
          obtain ⟨entry, hentry, hid⟩ := List.any_eq_true.mp hcontains
          refine hdisjoint id hmem id (List.mem_map.mpr ⟨entry, ?_, by simpa using hid⟩) rfl
          exact List.mem_flatMap.mpr ⟨other, hother, hentry⟩
        rw [List.filter_cons, if_pos hany, hnone]
        simp [hmem]
      · have hany : ¬ write.batch.any (·.id = id) := by
          intro hcontains
          obtain ⟨entry, hentry, hid⟩ := List.any_eq_true.mp hcontains
          exact hmem (List.mem_map.mpr ⟨entry, hentry, by simpa using hid⟩)
        rw [List.filter_cons, if_neg hany, ih hrest, List.mem_append]
        simp [hmem]

theorem resolved_iff (h : Items batchSize s) (id : ℕ) :
    s.isResolved id ↔ (s.writesOf id).length = 1 := by
  have hnodup := (ids_written h).nodup List.nodup_range
  have hfilter : s.writesOf id =
      (s.writes.filter (·.ok)).filter fun write => write.batch.any (·.id = id) := by
    rw [State.writesOf, List.filter_filter]
    simp only [Bool.and_comm]
  rw [hfilter, length_filter_eq_one hnodup, h.saved]
  simp only [State.isResolved, List.map_map, List.mem_map, List.mem_filter, Function.comp]
  constructor
  · rintro ⟨item, hmem⟩
    exact ⟨_, ⟨hmem, rfl⟩, rfl⟩
  · rintro ⟨⟨⟨_, item⟩, _⟩, ⟨hmem, rfl⟩, rfl⟩
    exact ⟨item, hmem⟩

theorem Orderly.promises (h : Orderly batchSize s) : Promises batchSize s where
  oneInFlight := by
    rcases h.items.saves with ⟨-, hsaves⟩ | ⟨save, hsaves, -⟩
    · simp [State.inFlight, hsaves]
    · exact (List.length_filterMap_le _ _).trans (by simp [hsaves])
  bounded := by
    intro batch hbatch
    rcases List.mem_append.mp hbatch with hbatch | hbatch
    · obtain ⟨save, hsave, hphase⟩ := List.mem_filterMap.mp hbatch
      rcases h.items.saves with ⟨-, hsaves⟩ | ⟨⟨number, phase⟩, hsaves, -, hfits⟩
      · simp [hsaves] at hsave
      · rw [hsaves, List.mem_singleton] at hsave
        subst hsave
        cases phase with
        | writing batch' rest =>
            obtain rfl := Option.some.inj hphase
            exact hfits.2.1
        | next rest => cases hphase
    · obtain ⟨write, hwrite, rfl⟩ := List.mem_map.mp hbatch
      exact h.items.fits write hwrite
  settledOnce := (ids_settled h.items).nodup List.nodup_range
  enqueued := by
    intro entry ok hentry
    have hmem : entry ∈ entries s := by
      refine List.mem_append_left _ (List.mem_append_left _ ?_)
      exact List.mem_map.mpr ⟨(entry, ok), hentry, rfl⟩
    rw [h.items.order, List.mem_mapIdx] at hmem
    obtain ⟨i, hi, rfl⟩ := hmem
    exact List.getElem?_eq_getElem hi
  resolved := resolved_iff h.items
  rejected := h.items.rejected
  ordered := List.pairwise_lt_range.sublist (ids_written h.items)
  flushed call hcall := (h.promised call hcall).2
  pending := h.timed.alive

/-- In every order of calls, timers, writes and microtasks the writer keeps its promises; what is
due comes to an end, and then everything is settled and every flush has returned. -/
theorem writer_promises (hsize : 1 ≤ batchSize) (inputs : List (Input α)) :
    Promises batchSize (run (step batchSize) {} inputs) ∧
      (∀ is, Meets (step batchSize) Due (run (step batchSize) {} inputs) is →
        is.length ≤ remaining (run (step batchSize) {} inputs)) ∧
      ((∀ i, ¬ Due (run (step batchSize) {} inputs) i) →
        (∀ id < (run (step batchSize) {} inputs).enqueued.length,
          (run (step batchSize) {} inputs).isSettled id) ∧
        ∀ call ∈ (run (step batchSize) {} inputs).flushes, call.resolved = true) := by
  have h : Orderly batchSize (run (step batchSize) {} inputs) :=
    run_of_invariant (fun _ i hs => hs.step hsize i) orderly_init inputs
  exact ⟨h.promises, fun is hdue => length_le_remaining hsize h hdue, settled_of_idle h⟩

/-- A batch of two fails and its entries are written one by one. -/
def retried : List (Input String) :=
  [.enqueue "a", .enqueue "b", .flush, .outcome 0 false, .outcome 0 true, .proceed 0,
    .outcome 0 false, .proceed 0, .resume 0]

theorem writer_promises_retried :
    Promises 2 (run (step 2) {} retried) ∧
      (run (step 2) {} retried).settled = [(⟨0, "a"⟩, true), (⟨1, "b"⟩, false)] :=
  ⟨(writer_promises (by decide) retried).1, by decide⟩

end AfkClient.BufferedWriter

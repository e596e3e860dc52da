import AfkClient.Model.BufferedWriter

/-! Every item is in one place: settled, being saved, or in the queue. -/

namespace AfkClient.BufferedWriter

variable {α : Type*} {batchSize : ℕ} {s : State α}

/-! ### Where the items are -/

/-- The entries a save has yet to settle. -/
def Phase.entries : Phase α → List (Entry α)
  | .writing batch rest => batch ++ rest
  | .next rest => rest

/-- A batch of one, or the first attempt for all of its entries. -/
def Phase.Fits (batchSize : ℕ) : Phase α → Prop
  | .writing batch rest =>
      1 ≤ batch.length ∧ batch.length ≤ batchSize ∧ (rest = [] ∨ batch.length = 1)
  | .next _ => True

def entries (s : State α) : List (Entry α) :=
  s.settled.map Prod.fst ++ s.saves.flatMap (·.phase.entries) ++ s.queue

structure Items (batchSize : ℕ) (s : State α) : Prop where
  saves : (s.running = none ∧ s.saves = []) ∨
    ∃ save, s.saves = [save] ∧ s.running = some save.number ∧ save.phase.Fits batchSize
  order : entries s = s.enqueued.mapIdx Entry.mk
  fits : ∀ write ∈ s.writes, write.batch.length ≤ batchSize
  saved : (s.writes.filter (·.ok)).flatMap Write.batch = (s.settled.filter (·.2)).map Prod.fst
  rejected : ∀ entry, (entry, false) ∈ s.settled → ⟨[entry], false⟩ ∈ s.writes

/-- The timer is set for a queue, and a queue waits for a timer or a save. -/
structure Timed (s : State α) : Prop where
  timer : s.timer → s.queue ≠ []
  alive : s.queue ≠ [] → s.timer ∨ s.running.isSome

theorem Items.idle (h : Items batchSize s) (hrunning : s.running = none) : s.saves = [] := by
  rcases h.saves with ⟨-, hsaves⟩ | ⟨save, -, hsome, -⟩
  · exact hsaves
  · rw [hrunning] at hsome
    cases hsome

/-- A save that is found is the only one. -/
theorem Items.only (h : Items batchSize s) {number : ℕ} {save : Save α}
    (hfind : s.saves.find? (·.number = number) = some save) :
    s.saves = [save] ∧ save.number = number ∧ s.running = some number ∧
      save.phase.Fits batchSize := by
  have hmem := List.mem_of_find?_eq_some hfind
  have hnumber : save.number = number := by simpa using List.find?_some hfind
  rcases h.saves with ⟨-, hsaves⟩ | ⟨other, hsaves, hrunning, hfits⟩
  · simp [hsaves] at hmem
  · rw [hsaves, List.mem_singleton] at hmem
    subst hmem
    exact ⟨hsaves, hnumber, hnumber ▸ hrunning, hfits⟩

theorem Items.find_of_mem (h : Items batchSize s) {save : Save α} (hmem : save ∈ s.saves) :
    s.saves.find? (·.number = save.number) = some save := by
  rcases h.saves with ⟨-, hsaves⟩ | ⟨other, hsaves, -⟩
  · simp [hsaves] at hmem
  · rw [hsaves, List.mem_singleton] at hmem
    simp [hsaves, hmem]

/-! ### Scheduling and draining -/

theorem Items.timer (h : Items batchSize s) (timer : Bool) :
    Items batchSize { s with timer } := ⟨h.saves, h.order, h.fits, h.saved, h.rejected⟩

theorem Items.schedule (h : Items batchSize s) : Items batchSize (schedule s) := by
  rw [BufferedWriter.schedule]
  split
  · exact h.timer true
  · exact h

theorem timed_schedule (h : s.timer → s.queue ≠ []) : Timed (schedule s) := by
  rw [schedule]
  split
  · rename_i hset
    simp only [Bool.and_eq_true, Bool.not_eq_true', List.isEmpty_eq_false_iff] at hset
    exact ⟨fun _ => hset.2, fun _ => .inl rfl⟩
  · rename_i hset
    simp only [Bool.and_eq_true, Bool.not_eq_true', List.isEmpty_eq_false_iff,
      Option.isNone_iff_eq_none, not_and] at hset
    refine ⟨h, fun hqueue => ?_⟩
    cases htimer : s.timer with
    | true => exact .inl rfl
    | false =>
        cases hrunning : s.running with
        | none => exact absurd hqueue (hset ⟨htimer, hrunning⟩)
        | some number => exact .inr rfl

/-- The three ways of `drain`. -/
theorem drain_cases (batchSize : ℕ) (s : State α) :
    (s.running.isSome ∧ drain batchSize s = (s, s.running)) ∨
      (s.running = none ∧ s.queue.take batchSize = [] ∧ drain batchSize s = (s, none)) ∨
      (s.running = none ∧ s.queue.take batchSize ≠ [] ∧
        drain batchSize s = ({ s with
          queue := s.queue.drop batchSize
          saves := s.saves ++ [⟨s.started, .writing (s.queue.take batchSize) []⟩]
          running := some s.started
          started := s.started + 1 }, some s.started)) := by
  cases hrunning : s.running with
  | some number => exact .inl ⟨rfl, by simp [drain, hrunning]⟩
  | none =>
      by_cases hempty : s.queue.take batchSize = []
      · exact .inr (.inl ⟨rfl, hempty, by simp [drain, hrunning, hempty]⟩)
      · have hbatch : (s.queue.take batchSize).isEmpty = false := by simpa using hempty
        exact .inr (.inr ⟨rfl, hempty, by simp [drain, hrunning, hbatch]⟩)

theorem Items.drain (h : Items batchSize s) : Items batchSize (drain batchSize s).1 := by
  rcases drain_cases batchSize s with ⟨-, heq⟩ | ⟨-, -, heq⟩ | ⟨hnone, hne, heq⟩
  · rw [heq]
    exact h
  · rw [heq]
    exact h
  · rw [heq]
    have hsaves := h.idle hnone
    have horder := h.order
    refine ⟨.inr ⟨_, by rw [hsaves, List.nil_append], rfl, ?_⟩, ?_, h.fits, h.saved, h.rejected⟩
    · exact ⟨List.length_pos_iff.mpr hne, List.length_take_le _ _, .inl rfl⟩
    · rw [← horder]
      simp [entries, hsaves, Phase.entries]

theorem drain_timer : (drain batchSize s).1.timer = s.timer := by
  rcases drain_cases batchSize s with ⟨-, heq⟩ | ⟨-, -, heq⟩ | ⟨-, -, heq⟩ <;> rw [heq]

theorem drain_promise : (drain batchSize s).2 = (drain batchSize s).1.running := by
  rcases drain_cases batchSize s with ⟨-, heq⟩ | ⟨hnone, -, heq⟩ | ⟨-, -, heq⟩
  · rw [heq]
  · rw [heq, hnone]
  · rw [heq]

/-- After `drain` a queue waits for a save. -/
theorem drain_running (hsize : 1 ≤ batchSize) (hqueue : (drain batchSize s).1.queue ≠ []) :
    (drain batchSize s).1.running.isSome := by
  rcases drain_cases batchSize s with ⟨hsome, heq⟩ | ⟨-, hempty, heq⟩ | ⟨-, -, heq⟩
  · rw [heq]
    exact hsome
  · rw [heq] at hqueue
    rcases List.take_eq_nil_iff.mp hempty with hzero | hnil
    · omega
    · exact absurd hnil hqueue
  · rw [heq]
    rfl

theorem timed_flushTurn (hsize : 1 ≤ batchSize) : Timed (flushTurn batchSize s).1 := by
  have htimer : (flushTurn batchSize s).1.timer = false := drain_timer
  exact ⟨fun h => by simp [htimer] at h, fun hqueue => .inr (drain_running hsize hqueue)⟩

theorem Items.flushTurn (h : Items batchSize s) : Items batchSize (flushTurn batchSize s).1 :=
  (h.timer false).drain

/-! ### One save -/

theorem setPhase_only {number : ℕ} {old phase : Phase α} (hsaves : s.saves = [⟨number, old⟩]) :
    setPhase number phase s = { s with saves := [⟨number, phase⟩] } := by
  simp [setPhase, hsaves]

/-- The save goes on with the same entries to settle. -/
theorem Items.rephase (h : Items batchSize s) {number : ℕ} {old phase : Phase α}
    (hfind : s.saves.find? (·.number = number) = some ⟨number, old⟩)
    (hentries : phase.entries = old.entries) (hfits : phase.Fits batchSize) :
    Items batchSize (setPhase number phase s) := by
  obtain ⟨hsaves, hnumber, hrunning, -⟩ := h.only hfind
  rw [setPhase_only hsaves]
  have horder := h.order
  refine ⟨.inr ⟨_, rfl, hrunning, hfits⟩, ?_, h.fits, h.saved, h.rejected⟩
  rw [← horder]
  simp [entries, hsaves, hentries]

/-- The three ways on after a write. -/
theorem written_cases (number : ℕ) (batch rest : List (Entry α)) (ok : Bool) (s : State α)
    (hbatch : 1 ≤ batch.length) :
    (ok = true ∧ written number batch rest ok s =
        setPhase number (.next rest)
          (settle batch true { s with writes := s.writes ++ [⟨batch, true⟩] })) ∨
      (ok = false ∧ ∃ entry, batch = [entry] ∧ written number batch rest ok s =
        setPhase number (.next rest)
          (settle [entry] false { s with writes := s.writes ++ [⟨[entry], false⟩] })) ∨
      (ok = false ∧ ∃ entry other more, batch = entry :: other :: more ∧
        written number batch rest ok s =
          setPhase number (.writing [entry] (other :: more ++ rest))
            { s with writes := s.writes ++ [⟨batch, false⟩] }) := by
  match ok, batch, hbatch with
  | true, _, _ => exact .inl ⟨rfl, rfl⟩
  | false, [entry], _ => exact .inr (.inl ⟨rfl, entry, rfl, rfl⟩)
  | false, entry :: other :: more, _ => exact .inr (.inr ⟨rfl, entry, other, more, rfl, rfl⟩)

theorem Items.written (h : Items batchSize s) {number : ℕ} {batch rest : List (Entry α)} (ok : Bool)
    (hfind : s.saves.find? (·.number = number) = some ⟨number, .writing batch rest⟩) :
    Items batchSize (written number batch rest ok s) := by
  obtain ⟨hsaves, -, hrunning, hlength, hle, hrest⟩ := h.only hfind
  have horder := h.order
  have hfits (ok : Bool) : ∀ write ∈ s.writes ++ [⟨batch, ok⟩], write.batch.length ≤ batchSize := by
    intro write hwrite
    rcases List.mem_append.mp hwrite with hwrite | hwrite
    · exact h.fits write hwrite
    · rw [List.mem_singleton.mp hwrite]
      exact hle
  rcases written_cases number batch rest ok s hlength with
    ⟨-, heq⟩ | ⟨-, entry, rfl, heq⟩ | ⟨-, entry, other, more, rfl, heq⟩
  · rw [heq, setPhase_only (by exact hsaves)]
    refine ⟨.inr ⟨_, rfl, hrunning, trivial⟩, ?_, hfits true, ?_, ?_⟩
    · rw [settle, ← horder]
      simp [entries, hsaves, Phase.entries, Function.comp_def]
    · simp [settle, h.saved, List.filter_append, List.filter_map, Function.comp_def]
    · intro entry hentry
      simp only [settle, List.mem_append, List.mem_map, Prod.mk.injEq, Bool.true_eq_false,
        and_false,
        exists_false, or_false] at hentry
      exact List.mem_append_left _ (h.rejected entry hentry)
  · rw [heq, setPhase_only (by exact hsaves)]
    refine ⟨.inr ⟨_, rfl, hrunning, trivial⟩, ?_, hfits false, ?_, ?_⟩
    · rw [settle, ← horder]
      simp [entries, hsaves, Phase.entries]
    · simp [settle, h.saved, List.filter_append]
    · intro entry' hentry
      simp only [settle, List.map_cons, List.map_nil, List.mem_append, List.mem_singleton,
        Prod.mk.injEq, and_true] at hentry
      rcases hentry with hentry | rfl
      · exact List.mem_append_left _ (h.rejected entry' hentry)
      · exact List.mem_append_right _ (by simp)
  · rw [heq, setPhase_only (by exact hsaves)]
    obtain rfl : rest = [] := hrest.resolve_right (by simp)
    refine ⟨.inr ⟨_, rfl, hrunning, by simp, by simp at hle; simp; omega, .inr rfl⟩, ?_,
      hfits false, ?_, ?_⟩
    · rw [← horder]
      simp [entries, hsaves, Phase.entries]
    · simp [h.saved, List.filter_append]
    · exact fun entry hentry => List.mem_append_left _ (h.rejected entry hentry)

theorem written_frame (number : ℕ) (batch rest : List (Entry α)) (ok : Bool) (s : State α) :
    (written number batch rest ok s).queue = s.queue ∧
      (written number batch rest ok s).timer = s.timer ∧
      (written number batch rest ok s).running = s.running ∧
      (written number batch rest ok s).flushes = s.flushes ∧
      (written number batch rest ok s).enqueued = s.enqueued := by
  match ok, batch with
  | true, _ | false, [] | false, [entry] | false, entry :: other :: more =>
      exact ⟨rfl, rfl, rfl, rfl, rfl⟩

theorem Items.finish (h : Items batchSize s) {number : ℕ}
    (hfind : s.saves.find? (·.number = number) = some ⟨number, .next []⟩) :
    Items batchSize (finish number s) := by
  obtain ⟨hsaves, -, -, -⟩ := h.only hfind
  have horder := h.order
  refine Items.schedule ⟨.inl ⟨rfl, by simp [hsaves]⟩, ?_, h.fits, h.saved, h.rejected⟩
  rw [← horder]
  simp [entries, hsaves, Phase.entries]

theorem Items.enqueue (h : Items batchSize s) (item : α) : Items batchSize (enqueue item s) := by
  refine Items.schedule ⟨h.saves, ?_, h.fits, h.saved, h.rejected⟩
  have horder := h.order
  rw [List.mapIdx_concat, ← horder]
  simp [entries]

/-! ### Flushes -/

/-- A flush that has returned leaves none of the items before it unsettled. -/
def Promised (s : State α) : Prop :=
  ∀ call ∈ s.flushes, call.before ≤ s.enqueued.length ∧
    (call.resolved → ∀ id < call.before, id ∈ s.settled.map (·.1.id))

theorem Promised.mono {t : State α} (h : Promised s) (hflushes : t.flushes = s.flushes)
    (henqueued : s.enqueued.length ≤ t.enqueued.length) (hsettled : s.settled <+: t.settled) :
    Promised t := by
  intro call hcall
  rw [hflushes] at hcall
  obtain ⟨hbefore, hall⟩ := h call hcall
  exact ⟨hbefore.trans henqueued, fun hresolved id hid =>
    (hsettled.map _).subset (hall hresolved id hid)⟩

theorem Promised.set (h : Promised s) (k : ℕ) (call : Flush)
    (hbefore : call.before ≤ s.enqueued.length)
    (hall : call.resolved → ∀ id < call.before, id ∈ s.settled.map (·.1.id)) :
    Promised { s with flushes := s.flushes.set k call } := by
  intro other hother
  rcases List.mem_or_eq_of_mem_set hother with hold | rfl
  · exact h other hold
  · exact ⟨hbefore, hall⟩

theorem schedule_frame : (schedule s).flushes = s.flushes ∧ (schedule s).enqueued = s.enqueued ∧
    (schedule s).settled = s.settled ∧ (schedule s).saves = s.saves ∧
    (schedule s).running = s.running ∧ (schedule s).queue = s.queue := by
  rw [schedule]
  split <;> exact ⟨rfl, rfl, rfl, rfl, rfl, rfl⟩

theorem drain_frame : (drain batchSize s).1.flushes = s.flushes ∧
    (drain batchSize s).1.enqueued = s.enqueued ∧ (drain batchSize s).1.settled = s.settled := by
  rcases drain_cases batchSize s with ⟨-, heq⟩ | ⟨-, -, heq⟩ | ⟨-, -, heq⟩ <;> rw [heq] <;>
    exact ⟨rfl, rfl, rfl⟩

theorem flushTurn_frame (batchSize : ℕ) (s : State α) :
    (flushTurn batchSize s).1.flushes = s.flushes ∧
    (flushTurn batchSize s).1.enqueued = s.enqueued ∧
    (flushTurn batchSize s).1.settled = s.settled := drain_frame

theorem Promised.flushTurn (h : Promised s) : Promised (flushTurn batchSize s).1 := by
  obtain ⟨hflushes, henqueued, hsettled⟩ := flushTurn_frame batchSize s
  exact h.mono hflushes (by rw [henqueued]) (by rw [hsettled])

/-- With an empty queue and no save, everything is settled. -/
theorem Items.settled (h : Items batchSize s) (hqueue : s.queue = [])
    (hrunning : s.running = none) :
    ∀ id < s.enqueued.length, id ∈ s.settled.map (·.1.id) := by
  intro id hid
  have horder := h.order
  simp only [entries, h.idle hrunning, hqueue, List.flatMap_nil, List.append_nil] at horder
  have hmem : (⟨id, s.enqueued[id]⟩ : Entry α) ∈ s.settled.map Prod.fst := by
    rw [horder, List.mem_mapIdx]
    exact ⟨id, hid, rfl⟩
  obtain ⟨pair, hpair, heq⟩ := List.mem_map.mp hmem
  exact List.mem_map.mpr ⟨pair, hpair, by rw [heq]⟩

/-! ### Every step -/

/-- What holds between any two steps. -/
structure Orderly (batchSize : ℕ) (s : State α) : Prop where
  items : Items batchSize s
  timed : Timed s
  promised : Promised s

theorem orderly_init : Orderly batchSize ({} : State α) where
  items := ⟨.inl ⟨rfl, rfl⟩, rfl, by simp, rfl, by simp⟩
  timed := ⟨by simp, by simp⟩
  promised := by simp [Promised]

theorem Orderly.enqueue (h : Orderly batchSize s) (item : α) :
    Orderly batchSize (enqueue item s) where
  items := h.items.enqueue item
  timed := timed_schedule (by simp)
  promised := by
    obtain ⟨hflushes, henqueued, hsettled, -⟩ := schedule_frame (s := { s with
      queue := s.queue ++ [⟨s.enqueued.length, item⟩], enqueued := s.enqueued ++ [item] })
    refine h.promised.mono hflushes ?_ ?_
    · rw [BufferedWriter.enqueue, henqueued]
      simp
    · rw [BufferedWriter.enqueue, hsettled]

theorem Orderly.flush (hsize : 1 ≤ batchSize) (h : Orderly batchSize s) :
    Orderly batchSize (flush batchSize s) where
  items :=
    have hitems := h.items.flushTurn
    ⟨hitems.saves, hitems.order, hitems.fits, hitems.saved, hitems.rejected⟩
  timed :=
    have htimed := timed_flushTurn (s := s) hsize
    ⟨htimed.timer, htimed.alive⟩
  promised := by
    obtain ⟨-, henqueued, -⟩ := flushTurn_frame batchSize s
    intro call hcall
    rcases List.mem_append.mp hcall with hcall | hcall
    · exact h.promised.flushTurn call hcall
    · rw [List.mem_singleton.mp hcall]
      exact ⟨by simp [BufferedWriter.flush, henqueued], by simp⟩

theorem Orderly.resume (hsize : 1 ≤ batchSize) (h : Orderly batchSize s) {k : ℕ} {call : Flush}
    (hcall : s.flushes[k]? = some call) (hopen : call.resolved = false) :
    Orderly batchSize (resume batchSize k call s) := by
  obtain ⟨hbefore, -⟩ := h.promised call (List.mem_of_getElem? hcall)
  rw [BufferedWriter.resume]
  split
  · have hitems := h.items.flushTurn
    have htimed := timed_flushTurn (s := s) hsize
    obtain ⟨-, henqueued, -⟩ := flushTurn_frame batchSize s
    refine ⟨⟨hitems.saves, hitems.order, hitems.fits, hitems.saved, hitems.rejected⟩,
      ⟨htimed.timer, htimed.alive⟩, ?_⟩
    exact h.promised.flushTurn.set k { call with awaits := (flushTurn batchSize s).2 }
      (by rw [henqueued]; exact hbefore) (by simp [hopen])
  · rename_i hidle
    simp only [Bool.or_eq_true, Bool.not_eq_true', List.isEmpty_eq_false_iff, not_or, not_not,
      Bool.not_eq_true, Option.isSome_eq_false_iff, Option.isNone_iff_eq_none] at hidle
    obtain ⟨hqueue, hrunning⟩ := hidle
    refine ⟨⟨h.items.saves, h.items.order, h.items.fits, h.items.saved, h.items.rejected⟩,
      ⟨by simp, fun hne => absurd hqueue hne⟩, ?_⟩
    exact h.promised.set k { call with resolved := true } hbefore
      fun _ id hid => h.items.settled hqueue hrunning id (by simp only at hid; omega)

theorem settled_prefix_written {number : ℕ} {batch rest : List (Entry α)} {ok : Bool} :
    s.settled <+: (written number batch rest ok s).settled := by
  match ok, batch with
  | true, _ => exact List.prefix_append _ _
  | false, [] => exact List.prefix_append _ _
  | false, [entry] => exact List.prefix_append _ _
  | false, entry :: other :: more => exact List.prefix_refl _

theorem Orderly.step (hsize : 1 ≤ batchSize) (h : Orderly batchSize s) (i : Input α) :
    Orderly batchSize (step batchSize s i) := by
  cases i with
  | enqueue item => exact h.enqueue item
  | flush => exact h.flush hsize
  | timer =>
      simp only [BufferedWriter.step]
      split
      · exact ⟨h.items.flushTurn, timed_flushTurn hsize, h.promised.flushTurn⟩
      · exact h
  | outcome number ok =>
      simp only [BufferedWriter.step]
      split
      · rename_i found batch rest hfind
        obtain ⟨-, hnumber, -, -⟩ := h.items.only hfind
        simp only at hnumber
        subst hnumber
        obtain ⟨hqueue, htimer, hrunning, hflushes, henqueued⟩ :=
          written_frame found batch rest ok s
        refine ⟨h.items.written ok hfind, ⟨?_, ?_⟩,
          h.promised.mono hflushes (by rw [henqueued]) settled_prefix_written⟩
        · rw [htimer, hqueue]
          exact h.timed.timer
        · rw [htimer, hqueue, hrunning]
          exact h.timed.alive
      · exact h
  | proceed number =>
      simp only [BufferedWriter.step]
      split
      · rename_i found entry rest hfind
        obtain ⟨-, hnumber, -, -⟩ := h.items.only hfind
        simp only at hnumber
        subst hnumber
        exact ⟨h.items.rephase hfind rfl ⟨le_rfl, hsize, .inr rfl⟩, ⟨h.timed.timer, h.timed.alive⟩,
          h.promised.mono rfl le_rfl (List.prefix_refl _)⟩
      · rename_i found hfind
        obtain ⟨-, hnumber, -, -⟩ := h.items.only hfind
        simp only at hnumber
        subst hnumber
        refine ⟨h.items.finish hfind, timed_schedule h.timed.timer, ?_⟩
        obtain ⟨hflushes, henqueued, hsettled, -⟩ := schedule_frame (s := { s with
          saves := s.saves.filter (·.number ≠ found), running := none })
        exact h.promised.mono hflushes (by rw [finish, henqueued]) (by rw [finish, hsettled])
      · exact h
  | resume k =>
      simp only [BufferedWriter.step]
      split
      · rename_i call hcall
        split
        · rename_i hdue
          simp only [Bool.and_eq_true, Bool.not_eq_true'] at hdue
          exact h.resume hsize hcall hdue.1
        · exact h
      · exact h

end AfkClient.BufferedWriter

import AfkClient.Model.WebsiteUpdates

/-! A tab has at most one request of each kind under way, acknowledges only what its dialog shows,
and shows an announcement as read only if that is recorded, or still to be sent. -/

namespace AfkClient.WebsiteUpdates

open Tab

variable {effect i : ℕ} {calls : List Call} {call : Call} {run : UpdatesRun} {updates : Bool}

/-! ### Requests under way -/

def Fetch.isUpdates : Fetch → Bool
  | .updates _ => true
  | .read _ => false

/-- An effect waits for a request of one kind. -/
def awaits (effect : ℕ) (updates : Bool) (call : Call) : Bool :=
  call.effect = effect && !call.settled && call.fetch.isUpdates == updates

theorem awaits_iff : awaits effect updates call = true ↔
    (call.effect = effect ∧ call.settled = false) ∧ call.fetch.isUpdates = updates := by
  simp [awaits]

/-- How many it waits for. -/
def awaited (effect : ℕ) (updates : Bool) (calls : List Call) : ℕ :=
  calls.countP (awaits effect updates)

theorem awaited_send (owner : String) (fetch : Fetch) :
    awaited effect updates (calls ++ [{ effect := effect, owner, fetch }]) =
      awaited effect updates calls + (fetch.isUpdates == updates).toNat := by
  cases hfetch : fetch.isUpdates == updates <;> simp [awaited, awaits, hfetch]

theorem awaited_settle (effect : ℕ) (updates : Bool) (hcall : calls[i]? = some call)
    (hopen : call.settled = false) :
    awaited effect updates calls =
      awaited effect updates (calls.set i { call with settled := true })
        + (call.effect = effect && call.fetch.isUpdates == updates).toNat := by
  obtain ⟨hi, rfl⟩ := List.getElem?_eq_some_iff.mp hcall
  have hsettled : awaits effect updates { calls[i] with settled := true } = false := by
    simp [awaits]
  rw [awaited, awaited, List.countP_set hi, hsettled]
  cases hawaits : awaits effect updates calls[i]
  · have hkind : (calls[i].effect = effect && calls[i].fetch.isUpdates == updates) = false := by
      simpa [awaits, hopen] using hawaits
    simp [hkind]
  · have hpos := List.countP_pos_iff.mpr ⟨_, List.getElem_mem hi, hawaits⟩
    have hkind : (calls[i].effect = effect && calls[i].fetch.isUpdates == updates) = true := by
      simpa [awaits, hopen] using hawaits
    simp only [hkind, Bool.toNat_true, if_true, Bool.false_eq_true, if_false]
    omega

theorem awaited_answer (hcall : calls[i]? = some call) (answer : Answer) :
    awaited effect updates (calls.set i { call with answer := some answer }) =
      awaited effect updates calls := by
  obtain ⟨hi, rfl⟩ := List.getElem?_eq_some_iff.mp hcall
  have hsame : awaits effect updates { calls[i] with answer := some answer } =
    awaits effect updates calls[i] := rfl
  rw [awaited, awaited, List.countP_set hi, hsame]
  cases hawaits : awaits effect updates calls[i]
  · rfl
  · have hpos := List.countP_pos_iff.mpr ⟨_, List.getElem_mem hi, hawaits⟩
    exact Nat.sub_add_cancel hpos

theorem awaited_pos (hmem : call ∈ calls) (heffect : call.effect = effect)
    (hopen : call.settled = false) (hfetch : call.fetch.isUpdates = updates) :
    0 < awaited effect updates calls :=
  List.countP_pos_iff.mpr ⟨call, hmem, awaits_iff.mpr ⟨⟨heffect, hopen⟩, hfetch⟩⟩

theorem awaited_other (h : ∀ call ∈ calls, call.effect ≠ effect) :
    awaited effect updates calls = 0 :=
  List.countP_eq_zero.mpr fun call hmem hawaits => h call hmem (awaits_iff.mp hawaits).1.1

/-- The requests of an effect beside its variables. -/
structure CallsSound (effect : ℕ) (calls : List Call) (run : UpdatesRun) : Prop where
  refreshing : awaited effect true calls = run.refreshing.toNat
  saving : awaited effect false calls = run.saving.toNat
  owner : ∀ call ∈ calls, call.effect = effect → call.owner = run.userId
  started : ∀ call ∈ calls, call.effect = effect → call.settled = false → ∀ n,
    call.fetch = .updates n → n ≤ run.revision ∧ (run.saving = true → n < run.revision)
  aimed : ∀ call ∈ calls, call.effect = effect → call.settled = false → ∀ id,
    call.fetch = .read id → run.pendingRead = some id

theorem CallsSound.fresh (h : ∀ call ∈ calls, call.effect ≠ effect) (userId : String) :
    CallsSound effect calls { userId } where
  refreshing := awaited_other h
  saving := awaited_other h
  owner call hmem heffect := absurd heffect (h call hmem)
  started call hmem heffect := absurd heffect (h call hmem)
  aimed call hmem heffect := absurd heffect (h call hmem)

theorem CallsSound.refresh (h : CallsSound effect calls run) (hrefreshing : run.refreshing = false)
    (hsaving : run.saving = false) :
    CallsSound effect
      (calls ++ [{ effect, owner := run.userId, fetch := .updates run.revision }])
      { run with refreshing := true } where
  refreshing := by rw [awaited_send, h.refreshing, hrefreshing]; rfl
  saving := by rw [awaited_send, h.saving, hsaving]; rfl
  owner call hmem heffect := by
    rcases List.mem_append.mp hmem with hold | hnew
    · exact h.owner call hold heffect
    · rw [List.mem_singleton.mp hnew]
  started call hmem heffect hopen n hfetch := by
    rcases List.mem_append.mp hmem with hold | hnew
    · exact h.started call hold heffect hopen n hfetch
    · rw [List.mem_singleton.mp hnew] at hfetch
      obtain rfl := Fetch.updates.inj hfetch
      exact ⟨le_rfl, fun hbusy => by simp [hsaving] at hbusy⟩
  aimed call hmem heffect hopen id hfetch := by
    rcases List.mem_append.mp hmem with hold | hnew
    · exact h.aimed call hold heffect hopen id hfetch
    · simp [List.mem_singleton.mp hnew] at hfetch

/-- Without a request to acknowledge under way, none is aimed at anything. -/
theorem CallsSound.not_read (h : CallsSound effect calls run) (hsaving : run.saving = false)
    (hmem : call ∈ calls) (heffect : call.effect = effect) (hopen : call.settled = false)
    (id : String) :
    call.fetch ≠ .read id := by
  intro hfetch
  have hkind : call.fetch.isUpdates = false := by rw [hfetch]; rfl
  have hpos := awaited_pos hmem heffect hopen hkind
  rw [h.saving, hsaving] at hpos
  exact absurd hpos (lt_irrefl 0)

theorem CallsSound.read (h : CallsSound effect calls run) (hsaving : run.saving = false)
    (id : String) (response : Option WebsiteUpdateResponse) :
    CallsSound effect (calls ++ [{ effect, owner := run.userId, fetch := .read id }])
      { run with
        saving := true
        revision := run.revision + 1
        pendingRead := some id
        response } where
  refreshing := by rw [awaited_send, h.refreshing]; rfl
  saving := by rw [awaited_send, h.saving, hsaving]; rfl
  owner call hmem heffect := by
    rcases List.mem_append.mp hmem with hold | hnew
    · exact h.owner call hold heffect
    · rw [List.mem_singleton.mp hnew]
  started call hmem heffect hopen n hfetch := by
    rcases List.mem_append.mp hmem with hold | hnew
    · have hlt := Nat.lt_succ_of_le (h.started call hold heffect hopen n hfetch).1
      exact ⟨hlt.le, fun _ => hlt⟩
    · simp [List.mem_singleton.mp hnew] at hfetch
  aimed call hmem heffect hopen id' hfetch := by
    rcases List.mem_append.mp hmem with hold | hnew
    · exact absurd hfetch (h.not_read hsaving hold heffect hopen id')
    · rw [List.mem_singleton.mp hnew] at hfetch
      exact congrArg some (Fetch.read.inj hfetch)

theorem mem_settle {other : Call} (hmem : other ∈ calls.set i { call with settled := true })
    (hopen : other.settled = false) : other ∈ calls := by
  rcases List.mem_or_eq_of_mem_set hmem with hold | rfl
  · exact hold
  · simp at hopen

/-- A settled request leaves the others as they are. -/
theorem CallsSound.settle (h : CallsSound effect calls run) (hcall : calls[i]? = some call)
    {refreshing saving : Bool} (hbusy : saving = true → run.saving = true)
    (hrefreshing : awaited effect true (calls.set i { call with settled := true }) =
      refreshing.toNat)
    (hsaving : awaited effect false (calls.set i { call with settled := true }) = saving.toNat) :
    CallsSound effect (calls.set i { call with settled := true })
      { run with refreshing, saving } where
  refreshing := hrefreshing
  saving := hsaving
  owner other hmem heffect := by
    rcases List.mem_or_eq_of_mem_set hmem with hold | rfl
    · exact h.owner other hold heffect
    · exact h.owner call (List.mem_of_getElem? hcall) heffect
  started other hmem heffect hopen n hfetch := by
    obtain ⟨hle, hlt⟩ := h.started other (mem_settle hmem hopen) heffect hopen n hfetch
    exact ⟨hle, fun hsaving => hlt (hbusy hsaving)⟩
  aimed other hmem heffect hopen := h.aimed other (mem_settle hmem hopen) heffect hopen

theorem CallsSound.past (h : CallsSound effect calls run) (hcall : calls[i]? = some call)
    (hopen : call.settled = false) (heffect : call.effect ≠ effect) :
    CallsSound effect (calls.set i { call with settled := true }) run := by
  have hcount (updates : Bool) := awaited_settle effect updates hcall hopen
  simp only [heffect, decide_false, Bool.false_and, Bool.toNat_false, add_zero] at hcount
  exact h.settle hcall id ((hcount true).symm.trans h.refreshing)
    ((hcount false).symm.trans h.saving)

theorem CallsSound.refreshEnd (h : CallsSound effect calls run) (hcall : calls[i]? = some call)
    (hopen : call.settled = false) (heffect : call.effect = effect)
    (hfetch : call.fetch.isUpdates = true) :
    CallsSound effect (calls.set i { call with settled := true })
      { run with refreshing := false } := by
  obtain rfl := heffect
  have hcount (updates : Bool) := awaited_settle call.effect updates hcall hopen
  have hone := (hcount true).symm.trans h.refreshing
  have hsame := (hcount false).symm.trans h.saving
  simp only [hfetch, decide_true, Bool.true_and, beq_self_eq_true, Bool.toNat_true] at hone
  simp only [hfetch, decide_true, Bool.true_and, show (true == false) = false from rfl,
    Bool.toNat_false, add_zero] at hsame
  refine h.settle hcall id ?_ hsame
  have hle := Bool.toNat_le run.refreshing
  rw [Bool.toNat_false]
  omega

theorem CallsSound.readEnd (h : CallsSound effect calls run) (hcall : calls[i]? = some call)
    (hopen : call.settled = false) (heffect : call.effect = effect)
    (hfetch : call.fetch.isUpdates = false) :
    CallsSound effect (calls.set i { call with settled := true }) { run with saving := false } := by
  obtain rfl := heffect
  have hcount (updates : Bool) := awaited_settle call.effect updates hcall hopen
  have hsame := (hcount true).symm.trans h.refreshing
  have hone := (hcount false).symm.trans h.saving
  simp only [hfetch, decide_true, Bool.true_and, show (false == true) = false from rfl,
    Bool.toNat_false, add_zero] at hsame
  simp only [hfetch, decide_true, Bool.true_and, beq_self_eq_true, Bool.toNat_true] at hone
  refine h.settle hcall (fun hsaving => by simp at hsaving) hsame ?_
  have hle := Bool.toNat_le run.saving
  rw [Bool.toNat_false]
  omega

/-- While nothing is being acknowledged, the response may be replaced. -/
theorem CallsSound.replace (h : CallsSound effect calls run) (hsaving : run.saving = false)
    (response : Option WebsiteUpdateResponse) (pendingRead : Option String) :
    CallsSound effect calls { run with response, pendingRead } where
  refreshing := h.refreshing
  saving := h.saving
  owner := h.owner
  started := h.started
  aimed _ hmem heffect hopen id hfetch :=
    absurd hfetch (h.not_read hsaving hmem heffect hopen id)

theorem CallsSound.toggle (h : CallsSound effect calls run) (isOpen : Bool) :
    CallsSound effect calls { run with isOpen } :=
  ⟨h.refreshing, h.saving, h.owner, h.started, h.aimed⟩

theorem CallsSound.answered (h : CallsSound effect calls run) (hcall : calls[i]? = some call)
    (answer : Answer) :
    CallsSound effect (calls.set i { call with answer := some answer }) run where
  refreshing := (awaited_answer hcall answer).trans h.refreshing
  saving := (awaited_answer hcall answer).trans h.saving
  owner other hmem heffect := by
    rcases List.mem_or_eq_of_mem_set hmem with hold | rfl
    · exact h.owner other hold heffect
    · exact h.owner call (List.mem_of_getElem? hcall) heffect
  started other hmem heffect hopen := by
    rcases List.mem_or_eq_of_mem_set hmem with hold | rfl
    · exact h.started other hold heffect hopen
    · exact h.started call (List.mem_of_getElem? hcall) heffect hopen
  aimed other hmem heffect hopen := by
    rcases List.mem_or_eq_of_mem_set hmem with hold | rfl
    · exact h.aimed other hold heffect hopen
    · exact h.aimed call (List.mem_of_getElem? hcall) heffect hopen

/-! ### The variables of the active effect -/

structure RunSound (s : Tab) (run : UpdatesRun) : Prop where
  userId : s.userId = some run.userId
  data : s.data = run.response
  isOpen : s.isOpen = run.isOpen
  pending : ∀ id, run.pendingRead = some id → run.response = some ⟨false, id⟩
  calls : CallsSound s.effects s.calls run

structure Sound (s : Tab) : Prop where
  effects : ∀ call ∈ s.calls, call.effect ≤ s.effects
  run : ∀ run, s.run = some run → RunSound s run
  idle : s.run = none → s.data = none

variable {s t : Tab}

theorem sound_initial : Sound {} := ⟨by simp, by simp, fun _ => rfl⟩

/-- A state that has the variables of an effect. -/
theorem sound_of_run (heffects : ∀ call ∈ t.calls, call.effect ≤ t.effects)
    (hrun : t.run = some run) (hsound : RunSound t run) : Sound t where
  effects := heffects
  run other hother := by
    obtain rfl : run = other := Option.some.inj (hrun.symm.trans hother)
    exact hsound
  idle hidle := by simp [hrun] at hidle

theorem effects_send (h : ∀ call ∈ s.calls, call.effect ≤ s.effects) (fetch : Fetch) :
    ∀ call ∈ (s.send run fetch).calls, call.effect ≤ (s.send run fetch).effects := by
  intro call hmem
  rcases List.mem_append.mp hmem with hold | hnew
  · exact h call hold
  · exact (congrArg Call.effect (List.mem_singleton.mp hnew)).le

theorem Sound.refresh (h : Sound s) : Sound s.refresh := by
  unfold Tab.refresh
  split
  · exact h
  rename_i run hrun
  split
  · exact h
  rename_i hfree
  obtain ⟨hrefreshing, hsaving⟩ : run.refreshing = false ∧ run.saving = false := by
    simpa using hfree
  have hr := h.run run hrun
  refine sound_of_run (effects_send h.effects _) rfl ?_
  exact ⟨hr.userId, hr.data, hr.isOpen, hr.pending, hr.calls.refresh hrefreshing hsaving⟩

theorem Sound.read (h : Sound s) : Sound s.read := by
  unfold Tab.read
  split
  · exact h
  rename_i run hrun
  split
  · exact h
  rename_i response hresponse
  split
  · exact h
  rename_i hunread
  obtain ⟨hsaving, -⟩ : run.saving = false ∧ _ := by
    simpa only [Bool.or_eq_true, not_or, Bool.not_eq_true] using hunread
  have hr := h.run run hrun
  refine sound_of_run (effects_send h.effects _) rfl ?_
  refine ⟨hr.userId, rfl, hr.isOpen, ?_, hr.calls.read hsaving _ _⟩
  rintro id ⟨⟩
  rfl

theorem sound_readEnd {result : Option Answer}
    (heffects : ∀ call ∈ s.calls, call.effect ≤ s.effects)
    (hr : RunSound s { run with saving := false }) : Sound (s.readEnd run result) := by
  unfold Tab.readEnd
  dsimp only
  split
  · refine sound_of_run heffects rfl ⟨hr.userId, hr.data, hr.isOpen, ?_, ?_⟩
    · simp
    · exact hr.calls.replace rfl run.response none
  · refine sound_of_run heffects rfl ⟨hr.userId, rfl, hr.isOpen, ?_, ?_⟩
    · simp
    · exact hr.calls.replace rfl none none
  · exact sound_of_run heffects rfl ⟨hr.userId, hr.data, hr.isOpen, hr.pending, hr.calls⟩

theorem sound_refreshed (hr : RunSound s run) (heffects : ∀ call ∈ s.calls, call.effect ≤ s.effects)
    (hsaving : run.saving = false) (result : WebsiteUpdateResponse) :
    Sound (s.refreshed run result) := by
  unfold Tab.refreshed
  split
  · rename_i hpending
    refine sound_of_run heffects rfl ⟨hr.userId, rfl, hr.isOpen, ?_, ?_⟩
    · intro id hid
      obtain rfl := Option.some.inj (hpending.symm.trans hid)
      rfl
    · exact hr.calls.replace hsaving _ _
  · refine sound_of_run heffects rfl ⟨hr.userId, rfl, hr.isOpen, ?_, ?_⟩
    · simp
    · exact hr.calls.replace hsaving _ _

theorem sound_refreshEnd {startedAt : ℕ} {result : Option Answer}
    (heffects : ∀ call ∈ s.calls, call.effect ≤ s.effects)
    (hr : RunSound s { run with refreshing := false })
    (hfree : run.revision = startedAt → run.saving = false) :
    Sound (s.refreshEnd run startedAt result) := by
  unfold Tab.refreshEnd
  dsimp only
  have hr' : RunSound { s with run := some { run with refreshing := false }, loading := false }
    { run with refreshing := false } := ⟨hr.userId, hr.data, hr.isOpen, hr.pending, hr.calls⟩
  split
  · rename_i response
    split
    · exact sound_of_run heffects rfl hr'
    rename_i hcurrent
    have hrefreshed := sound_refreshed hr' heffects (hfree (not_not.mp hcurrent)) response
    split
    · exact hrefreshed.read
    · exact hrefreshed
  · split
    · exact sound_of_run heffects rfl ⟨hr.userId, hr.data, hr.isOpen, hr.pending, hr.calls⟩
    · exact sound_of_run heffects rfl hr'

/-- A request that is read off while it is saved has an older revision. -/
theorem CallsSound.free (h : CallsSound effect calls run) (hmem : call ∈ calls)
    (heffect : call.effect = effect) (hopen : call.settled = false) {startedAt : ℕ}
    (hfetch : call.fetch = .updates startedAt) (hcurrent : run.revision = startedAt) :
    run.saving = false := by
  by_contra hsaving
  have hlt := (h.started call hmem heffect hopen startedAt hfetch).2 (by simpa using hsaving)
  exact absurd hcurrent.symm hlt.ne

/-- A request that was there before, or not settled since. -/
def Kept (calls : List Call) (call : Call) : Prop :=
  ∃ old ∈ calls, old.owner = call.owner ∧ old.fetch = call.fetch ∧ old.answer = call.answer

theorem kept_of_mem (h : call ∈ calls) : Kept calls call := ⟨call, h, rfl, rfl, rfl⟩

theorem Kept.trans {past : List Call} (h : Kept calls call)
    (hcalls : ∀ old ∈ calls, Kept past old) : Kept past call := by
  obtain ⟨old, hold, howner, hfetch, hanswer⟩ := h
  obtain ⟨first, hfirst, howner', hfetch', hanswer'⟩ := hcalls old hold
  exact ⟨first, hfirst, howner'.trans howner, hfetch'.trans hfetch, hanswer'.trans hanswer⟩

/-- What remains of the requests of a tab when one is settled. -/
structure Taken (s : Tab) (calls : List Call) : Prop where
  kept : ∀ call ∈ calls, Kept s.calls call
  unsettled : ∀ call ∈ calls, call.settled = false → call ∈ s.calls
  effects : ∀ call ∈ calls, call.effect ≤ s.effects

theorem Sound.taken (h : Sound s) (hcall : s.calls[i]? = some call) :
    Taken s (s.calls.set i { call with settled := true }) where
  kept other hmem := by
    rcases List.mem_or_eq_of_mem_set hmem with hold | rfl
    · exact kept_of_mem hold
    · exact ⟨call, List.mem_of_getElem? hcall, rfl, rfl, rfl⟩
  unsettled other hmem hopen := mem_settle hmem hopen
  effects other hmem := by
    rcases List.mem_or_eq_of_mem_set hmem with hold | rfl
    · exact h.effects other hold
    · exact h.effects call (List.mem_of_getElem? hcall)

/-- The active effect waits for a request. -/
structure Waits (s : Tab) (run : UpdatesRun) (call : Call) : Prop where
  run : s.run = some run
  mem : call ∈ s.calls
  effect : call.effect = s.effects
  unsettled : call.settled = false

theorem Waits.free (h : Waits s run call) (hs : Sound s) {startedAt : ℕ}
    (hfetch : call.fetch = .updates startedAt) (hcurrent : run.revision = startedAt) :
    run.saving = false :=
  (hs.run run h.run).calls.free h.mem h.effect h.unsettled hfetch hcurrent

/-- What settling a request can do: nothing, no more than take it off, or go on in its effect. -/
inductive Settles (s : Tab) (result : Call → Option (Option Answer)) : Tab → Prop where
  | same : Settles s result s
  | taken {calls : List Call} (htaken : Taken s calls) (hsound : Sound { s with calls }) :
      Settles s result { s with calls }
  | refreshes {run : UpdatesRun} {call : Call} {startedAt : ℕ} {answer : Option Answer}
      {calls : List Call} (htaken : Taken s calls) (hwaits : Waits s run call)
      (hfetch : call.fetch = .updates startedAt) (hanswer : result call = some answer)
      (hsound : RunSound { s with calls } { run with refreshing := false }) :
      Settles s result (Tab.refreshEnd run startedAt answer { s with calls })
  | reads {run : UpdatesRun} {call : Call} {id : String} {answer : Option Answer}
      {calls : List Call} (htaken : Taken s calls) (hwaits : Waits s run call)
      (hfetch : call.fetch = .read id) (hanswer : result call = some answer)
      (hsound : RunSound { s with calls } { run with saving := false }) :
      Settles s result (Tab.readEnd run answer { s with calls })

theorem Sound.settles (h : Sound s) (i : ℕ) (result : Call → Option (Option Answer)) :
    Settles s result (s.settle i result) := by
  unfold Tab.settle
  split
  · exact .same
  rename_i call hcall
  split
  · exact .same
  rename_i answer hanswer
  split
  · exact .same
  rename_i hopen
  have hopen := Bool.eq_false_iff.mpr hopen
  have htaken := h.taken hcall
  dsimp only
  split
  · rename_i hrun
    exact .taken htaken ⟨htaken.effects, by simp [hrun], h.idle⟩
  rename_i run hrun
  have hr := h.run run hrun
  split
  · rename_i hpast
    refine .taken htaken (sound_of_run htaken.effects hrun
      ⟨hr.userId, hr.data, hr.isOpen, hr.pending, ?_⟩)
    exact hr.calls.past hcall hopen hpast
  rename_i heffect
  have heffect := not_not.mp heffect
  have hwaits : Waits s run call := ⟨hrun, List.mem_of_getElem? hcall, heffect, hopen⟩
  split
  · rename_i startedAt hfetch
    refine .refreshes htaken hwaits hfetch hanswer ⟨hr.userId, hr.data, hr.isOpen, hr.pending, ?_⟩
    exact hr.calls.refreshEnd hcall hopen heffect (by rw [hfetch]; rfl)
  · rename_i id hfetch
    refine .reads htaken hwaits hfetch hanswer ⟨hr.userId, hr.data, hr.isOpen, hr.pending, ?_⟩
    exact hr.calls.readEnd hcall hopen heffect (by rw [hfetch]; rfl)

theorem Sound.settle (h : Sound s) (i : ℕ) (result : Call → Option (Option Answer)) :
    Sound (s.settle i result) := by
  have hsettles := h.settles i result
  generalize s.settle i result = u at hsettles
  cases hsettles with
  | same => exact h
  | taken _ hsound => exact hsound
  | refreshes htaken hwaits hfetch _ hsound =>
      exact sound_refreshEnd htaken.effects hsound (hwaits.free h hfetch)
  | reads htaken _ _ _ hsound => exact sound_readEnd htaken.effects hsound

theorem Sound.signIn (h : Sound s) (userId : Option String) : Sound (s.signIn userId) := by
  unfold Tab.signIn
  split
  · exact h
  refine Sound.refresh
    ⟨fun call hmem => (h.effects call hmem).trans (Nat.le_succ _), ?_, fun _ => rfl⟩
  intro run hrun
  obtain ⟨user, huser, rfl⟩ := Option.map_eq_some_iff.mp hrun
  refine ⟨(Option.filter_eq_some_iff.mp huser).1, rfl, rfl, by simp, ?_⟩
  exact CallsSound.fresh (fun call hmem => (Nat.lt_succ_of_le (h.effects call hmem)).ne) user

theorem Sound.readOrRefresh (h : Sound s) : Sound s.readOrRefresh := by
  unfold Tab.readOrRefresh
  split
  · exact h.read
  · exact h.refresh

theorem RunSound.toggle (hr : RunSound s run) (isOpen : Bool) :
    RunSound { s with run := some { run with isOpen }, isOpen } { run with isOpen } :=
  ⟨hr.userId, hr.data, rfl, hr.pending, hr.calls.toggle isOpen⟩

theorem Sound.onShow (h : Sound s) : Sound s.onShow := by
  unfold Tab.onShow
  split
  · exact h
  rename_i run hrun
  split
  · exact h
  · refine Sound.readOrRefresh (sound_of_run ?_ rfl ((h.run run hrun).toggle true))
    exact h.effects

theorem Sound.onClose (h : Sound s) : Sound s.onClose := by
  refine ⟨h.effects, ?_, fun hidle => h.idle (Option.map_eq_none_iff.mp hidle)⟩
  intro closed hclosed
  obtain ⟨run, hrun, rfl⟩ := Option.map_eq_some_iff.mp hclosed
  have hr := h.run run hrun
  exact ⟨hr.userId, hr.data, rfl, hr.pending, hr.calls.toggle false⟩

theorem Sound.onRetry (h : Sound s) : Sound s.onRetry := by
  unfold Tab.onRetry
  split
  · exact h
  split
  · exact h
  split
  · exact h
  · exact h.readOrRefresh

theorem Sound.step (h : Sound s) (event : Tab.Event) : Sound (s.step event) := by
  cases event with
  | signIn userId => exact h.signIn userId
  | onFocus => exact h.refresh
  | onShow => exact h.onShow
  | onClose => exact h.onClose
  | onRetry => exact h.onRetry
  | respond call => exact h.settle call _
  | fail call => exact h.settle call fun _ => some none

theorem Sound.answered (h : Sound s) (hcall : s.calls[i]? = some call) (answer : Answer) :
    Sound (s.answered i call answer) where
  effects other hmem := by
    rcases List.mem_or_eq_of_mem_set hmem with hold | rfl
    · exact h.effects other hold
    · exact h.effects call (List.mem_of_getElem? hcall)
  run run hrun := by
    have hr := h.run run hrun
    exact ⟨hr.userId, hr.data, hr.isOpen, hr.pending, hr.calls.answered hcall answer⟩
  idle := h.idle

/-! ### What the dialog shows -/

/-- A dialog shows an announcement to its user. -/
def Displays (s : Tab) (userId announcementId : String) : Prop :=
  s.userId = some userId ∧ s.isOpen = true ∧ ∃ unread, s.data = some ⟨unread, announcementId⟩

/-- An open dialog shows no announcement as unread. -/
def Clear (s : Tab) : Prop :=
  s.isOpen = true → ∀ response, s.data = some response → response.unread = false

/-- What is acknowledged from now on is an announcement that the dialog shows. -/
def Shows (s t : Tab) : Prop :=
  ∀ call ∈ t.calls, Kept s.calls call ∨
    (call.answer = none ∧ ∀ id, call.fetch = .read id → Displays t call.owner id)

variable {known : String → String → Prop}

/-- What the answers of the server say about what a user has read. -/
structure Backed (known : String → String → Prop) (calls : List Call) : Prop where
  read : ∀ call ∈ calls, ∀ id response, call.fetch = .read id →
    call.answer = some (.ok response) → known call.owner id
  updates : ∀ call ∈ calls, ∀ n response, call.fetch = .updates n →
    call.answer = some (.ok response) → response.unread = false →
      known call.owner response.announcementId

/-- What is shown as read is known to be, or still to be acknowledged. -/
def Noted (known : String → String → Prop) (s : Tab) : Prop :=
  ∀ run, s.run = some run → ∀ response, run.response = some response → response.unread = false →
    run.pendingRead = some response.announcementId ∨ known run.userId response.announcementId

theorem shows_of_kept (h : ∀ call ∈ t.calls, Kept s.calls call) : Shows s t :=
  fun call hmem => .inl (h call hmem)

theorem shows_of_calls (h : t.calls = s.calls) : Shows s t :=
  shows_of_kept fun _ hmem => kept_of_mem (h ▸ hmem)

theorem Shows.after {u : Tab} (h : ∀ call ∈ t.calls, Kept s.calls call) (hshows : Shows t u) :
    Shows s u :=
  fun call hmem => (hshows call hmem).imp_left (·.trans h)

theorem CallsSound.pending_of_saving (h : CallsSound effect calls run)
    (hsaving : run.saving = true) :
    ∃ id, run.pendingRead = some id := by
  have hone := h.saving
  rw [hsaving, Bool.toNat_true] at hone
  obtain ⟨call, hmem, hawaits⟩ := List.countP_pos_iff.mp (Nat.one_pos.trans_eq hone.symm)
  obtain ⟨⟨heffect, hopen⟩, hkind⟩ := awaits_iff.mp hawaits
  cases hfetch : call.fetch with
  | updates n => simp [hfetch, Fetch.isUpdates] at hkind
  | read id => exact ⟨id, h.aimed call hmem heffect hopen id hfetch⟩

/-- After `read`, nothing is shown as unread. -/
theorem read_clear (h : Sound s) {response : WebsiteUpdateResponse}
    (hdata : s.read.data = some response) : response.unread = false := by
  unfold Tab.read at hdata
  split at hdata
  · rename_i hrun
    simp [h.idle hrun] at hdata
  rename_i run hrun
  have hr := h.run run hrun
  split at hdata
  · rename_i hnone
    simp [hr.data, hnone] at hdata
  rename_i old hold
  split at hdata
  · rename_i hdone
    obtain rfl : old = response := by simpa [hr.data, hold] using hdata
    rcases (Bool.or_eq_true _ _).mp hdone with hsaving | hread
    · obtain ⟨id, hid⟩ := hr.calls.pending_of_saving hsaving
      rw [Option.some.inj (hold.symm.trans (hr.pending id hid))]
    · simpa using ((Bool.and_eq_true _ _).mp hread).1
  · cases hdata
    rfl

/-- What a step of the hook keeps. -/
structure Keeps (known : String → String → Prop) (s t : Tab) : Prop where
  clear : Clear s → Clear t
  shows : Shows s t
  noted : Noted known s → Noted known t

theorem Keeps.refl (s : Tab) : Keeps known s s := ⟨id, shows_of_calls rfl, id⟩

theorem Sound.keeps_read (h : Sound s) (hopen : s.isOpen = true) : Keeps known s s.read := by
  refine ⟨fun _ _ response hdata => read_clear h hdata, ?_, ?_⟩
  · unfold Tab.read
    split
    · exact shows_of_calls rfl
    rename_i run hrun
    split
    · exact shows_of_calls rfl
    split
    · exact shows_of_calls rfl
    intro call hmem
    rcases List.mem_append.mp hmem with hold | hnew
    · exact .inl (kept_of_mem hold)
    · rw [List.mem_singleton.mp hnew]
      refine .inr ⟨rfl, fun id hfetch => ?_⟩
      obtain rfl := Fetch.read.inj hfetch
      exact ⟨(h.run run hrun).userId, hopen, false, rfl⟩
  · intro hnoted
    unfold Tab.read
    split
    · exact hnoted
    split
    · exact hnoted
    split
    · exact hnoted
    rintro run ⟨⟩ response ⟨⟩ -
    exact .inl rfl

theorem keeps_refresh : Keeps known s s.refresh := by
  unfold Tab.refresh
  split
  · exact Keeps.refl s
  rename_i run hrun
  split
  · exact Keeps.refl s
  refine ⟨id, ?_, ?_⟩
  · intro call hmem
    rcases List.mem_append.mp hmem with hold | hnew
    · exact .inl (kept_of_mem hold)
    · rw [List.mem_singleton.mp hnew]
      exact .inr ⟨rfl, fun id hfetch => by simp at hfetch⟩
  · rintro hnoted later ⟨⟩ response hresponse hread
    exact hnoted run hrun response hresponse hread

theorem Sound.keeps_readOrRefresh (h : Sound s) (hopen : s.isOpen = true) :
    Keeps known s s.readOrRefresh := by
  unfold Tab.readOrRefresh
  split
  · exact h.keeps_read hopen
  · exact keeps_refresh

theorem keeps_readEnd {result : Option Answer} (hrun : s.run = some run)
    (hok : ∀ response, result = some (.ok response) → ∀ id, run.pendingRead = some id →
      known run.userId id) : Keeps known s (s.readEnd run result) := by
  unfold Tab.readEnd
  dsimp only
  split
  · rename_i response
    refine ⟨id, shows_of_calls rfl, ?_⟩
    rintro hnoted later ⟨⟩ old hold hread
    rcases hnoted run hrun old hold hread with hpending | hknown
    · exact .inr (hok response rfl _ hpending)
    · exact .inr hknown
  · refine ⟨?_, shows_of_calls rfl, ?_⟩
    · rintro - - response ⟨⟩
    · rintro - later ⟨⟩ response ⟨⟩
  · refine ⟨id, shows_of_calls rfl, ?_⟩
    rintro hnoted later ⟨⟩ old hold hread
    exact hnoted run hrun old hold hread

theorem refreshed_calls (result : WebsiteUpdateResponse) :
    (s.refreshed run result).calls = s.calls := by
  unfold Tab.refreshed
  split <;> rfl

theorem refreshed_isOpen (result : WebsiteUpdateResponse) :
    (s.refreshed run result).isOpen = s.isOpen := by
  unfold Tab.refreshed
  split <;> rfl

theorem noted_refreshed {result : WebsiteUpdateResponse}
    (hok : result.unread = false → known run.userId result.announcementId) :
    Noted known (s.refreshed run result) := by
  unfold Tab.refreshed
  split
  · rename_i hpending
    rintro later ⟨⟩ response ⟨⟩ -
    exact .inl hpending
  · rintro later ⟨⟩ response ⟨⟩ hread
    exact .inr (hok hread)

theorem Shows.after_calls {u : Tab} (h : t.calls = s.calls) (hshows : Shows t u) : Shows s u :=
  hshows.after fun _ hmem => kept_of_mem (h ▸ hmem)

theorem keeps_refreshEnd {startedAt : ℕ} {result : Option Answer}
    (hrun : s.run = some run) (heffects : ∀ call ∈ s.calls, call.effect ≤ s.effects)
    (hr : RunSound s { run with refreshing := false })
    (hfree : run.revision = startedAt → run.saving = false)
    (hok : ∀ response, result = some (.ok response) → response.unread = false →
      known run.userId response.announcementId) :
    Keeps known s (s.refreshEnd run startedAt result) := by
  unfold Tab.refreshEnd
  dsimp only
  have hr' : RunSound { s with run := some { run with refreshing := false }, loading := false }
    { run with refreshing := false } := ⟨hr.userId, hr.data, hr.isOpen, hr.pending, hr.calls⟩
  have hsame (hnoted : Noted known s) :
      Noted known { s with run := some { run with refreshing := false }, loading := false } := by
    rintro later ⟨⟩ old hold hread
    exact hnoted run hrun old hold hread
  split
  · rename_i response
    split
    · exact ⟨id, shows_of_calls rfl, hsame⟩
    rename_i hcurrent
    have hrefreshed := sound_refreshed hr' heffects (hfree (not_not.mp hcurrent)) response
    have hnoted : Noted known (Tab.refreshed { run with refreshing := false } response { s with
      run := some { run with refreshing := false }, loading := false }) :=
      noted_refreshed (hok response rfl)
    split
    · rename_i hopen
      have hread : Keeps known _ _ :=
        hrefreshed.keeps_read ((refreshed_isOpen response).trans (hr.isOpen.trans hopen))
      refine ⟨fun _ _ later hdata => read_clear hrefreshed hdata, ?_, fun _ => hread.noted hnoted⟩
      exact hread.shows.after_calls (by rw [refreshed_calls])
    · rename_i hclosed
      refine ⟨fun _ hopen => absurd hopen ?_, shows_of_calls (refreshed_calls response),
        fun _ => hnoted⟩
      rw [refreshed_isOpen]
      exact fun hopen => hclosed (hr.isOpen.symm.trans hopen)
  · split
    · refine ⟨id, shows_of_calls rfl, fun hnoted => ?_⟩
      exact hsame hnoted
    · exact ⟨id, shows_of_calls rfl, hsame⟩

theorem Keeps.after_calls (hcalls : ∀ call ∈ calls, Kept s.calls call)
    (h : Keeps known { s with calls := calls } t) : Keeps known s t :=
  ⟨h.clear, h.shows.after hcalls, h.noted⟩

theorem Sound.keeps_settle (h : Sound s) (hbacked : Backed known s.calls) (i : ℕ)
    (result : Call → Option (Option Answer))
    (hresult : ∀ call answer, result call = some (some answer) → call.answer = some answer) :
    Keeps known s (s.settle i result) := by
  have hsettles := h.settles i result
  generalize s.settle i result = u at hsettles
  cases hsettles with
  | same => exact Keeps.refl s
  | taken htaken => exact ⟨id, shows_of_kept htaken.kept, id⟩
  | refreshes htaken hwaits hfetch hanswer hsound =>
      rename_i run call startedAt answer calls
      have howner := (h.run run hwaits.run).calls.owner call hwaits.mem hwaits.effect
      refine Keeps.after_calls htaken.kept (keeps_refreshEnd hwaits.run htaken.effects hsound
        (hwaits.free h hfetch) ?_)
      rintro response rfl hread
      rw [← howner]
      exact hbacked.updates call hwaits.mem startedAt response hfetch (hresult call _ hanswer) hread
  | reads htaken hwaits hfetch hanswer hsound =>
      rename_i run call id answer calls
      have hcalls := (h.run run hwaits.run).calls
      have haimed := hcalls.aimed call hwaits.mem hwaits.effect hwaits.unsettled id hfetch
      refine Keeps.after_calls htaken.kept (keeps_readEnd hwaits.run ?_)
      rintro response rfl other hother
      obtain rfl : id = other := Option.some.inj (haimed.symm.trans hother)
      rw [← hcalls.owner call hwaits.mem hwaits.effect]
      exact hbacked.read call hwaits.mem id response hfetch (hresult call _ hanswer)

theorem keeps_signIn (userId : Option String) : Keeps known s (s.signIn userId) := by
  unfold Tab.signIn
  split
  · exact Keeps.refl s
  have hkeeps (t : Tab) : Keeps known t t.refresh := keeps_refresh
  refine ⟨fun _ => (hkeeps _).clear ?_, (hkeeps _).shows.after_calls rfl,
    fun _ => (hkeeps _).noted ?_⟩
  · rintro ⟨⟩
  · intro run hrun
    obtain ⟨user, -, rfl⟩ := Option.map_eq_some_iff.mp hrun
    rintro response ⟨⟩

theorem Sound.keeps_onShow (h : Sound s) : Keeps known s s.onShow := by
  unfold Tab.onShow
  split
  · exact Keeps.refl s
  rename_i run hrun
  split
  · exact Keeps.refl s
  have hopened : Sound { s with run := some { run with isOpen := true }, isOpen := true } := by
    refine sound_of_run ?_ rfl ((h.run run hrun).toggle true)
    exact h.effects
  have hkeeps : Keeps known _ _ := hopened.keeps_readOrRefresh rfl
  refine ⟨fun _ => ?_, hkeeps.shows.after_calls rfl, fun hnoted => hkeeps.noted ?_⟩
  · unfold Tab.readOrRefresh
    split
    · exact fun _ response hdata => read_clear hopened hdata
    · rename_i hnone
      refine (keeps_refresh : Keeps known _ _).clear fun _ response hdata => ?_
      exact absurd (Option.isSome_of_eq_some (show s.data = some response from hdata)) hnone
  · rintro later ⟨⟩ old hold hread
    exact hnoted run hrun old hold hread

theorem keeps_onClose : Keeps known s s.onClose := by
  refine ⟨?_, shows_of_calls rfl, ?_⟩
  · rintro - ⟨⟩
  · intro hnoted closed hclosed old hold hread
    obtain ⟨run, hrun, rfl⟩ := Option.map_eq_some_iff.mp hclosed
    exact hnoted run hrun old hold hread

theorem Sound.keeps_onRetry (h : Sound s) : Keeps known s s.onRetry := by
  unfold Tab.onRetry
  split
  · exact Keeps.refl s
  rename_i hshown
  have hopen : s.isOpen = true := by
    simp only [Bool.or_eq_true, not_or, Bool.not_eq_true'] at hshown
    simpa using hshown.1
  split
  · exact Keeps.refl s
  split
  · exact Keeps.refl s
  · exact h.keeps_readOrRefresh hopen

theorem Sound.keeps_step (h : Sound s) (hbacked : Backed known s.calls) (event : Tab.Event) :
    Keeps known s (s.step event) := by
  cases event with
  | signIn userId => exact keeps_signIn userId
  | onFocus => exact keeps_refresh
  | onShow => exact h.keeps_onShow
  | onClose => exact keeps_onClose
  | onRetry => exact h.keeps_onRetry
  | respond call => exact h.keeps_settle hbacked call _ (by simp)
  | fail call => exact h.keeps_settle hbacked call (fun _ => some none) (by simp)

/-! ### What a user has read -/

theorem Backed.mono {known' : String → String → Prop} (hmono : ∀ u a, known u a → known' u a)
    (h : Backed known calls) : Backed known' calls where
  read call hmem id response hfetch hanswer :=
    hmono _ _ (h.read call hmem id response hfetch hanswer)
  updates call hmem n response hfetch hanswer hread :=
    hmono _ _ (h.updates call hmem n response hfetch hanswer hread)

theorem Noted.mono {known' : String → String → Prop} (hmono : ∀ u a, known u a → known' u a)
    (h : Noted known s) : Noted known' s :=
  fun run hrun response hresponse hread =>
    (h run hrun response hresponse hread).imp_right (hmono _ _)

theorem Backed.step (h : Backed known s.calls) (hshows : Shows s t) : Backed known t.calls where
  read call hmem id response hfetch hanswer := by
    rcases hshows call hmem with ⟨old, hold, howner, hfetch', hanswer'⟩ | ⟨hnone, -⟩
    · exact howner ▸ h.read old hold id response (hfetch'.trans hfetch) (hanswer'.trans hanswer)
    · simp [hnone] at hanswer
  updates call hmem n response hfetch hanswer := by
    rcases hshows call hmem with ⟨old, hold, howner, hfetch', hanswer'⟩ | ⟨hnone, -⟩
    · exact howner ▸ h.updates old hold n response (hfetch'.trans hfetch) (hanswer'.trans hanswer)
    · simp [hnone] at hanswer

/-- An answer that says that something was read says what is recorded by then. -/
structure Truthful (server : Server) (call : Call) (answer : Answer) : Prop where
  read : ∀ id response, call.fetch = .read id → answer = .ok response →
    server.lastSeenWebsiteUpdate call.owner = some id
  updates : ∀ n response, call.fetch = .updates n → answer = .ok response →
    response.unread = false →
      server.lastSeenWebsiteUpdate call.owner = some response.announcementId

theorem truthful_error (server : Server) (call : Call) (refusal : Refusal) :
    Truthful server call (.error refusal) := ⟨by simp, by simp⟩

/-- The marker of a user moves only to what the user's own tab acknowledges. -/
theorem answer_spec (server : Server) (session : Option String) (csrf : Bool) (call : Call) :
    Truthful (server.answer session csrf call).2 call (server.answer session csrf call).1 ∧
      ∀ u a, (server.answer session csrf call).2.lastSeenWebsiteUpdate u = some a →
        server.lastSeenWebsiteUpdate u = some a ∨ (u = call.owner ∧ call.fetch = .read a) := by
  unfold Server.answer
  split
  · exact ⟨truthful_error _ _ _, fun _ _ => .inl⟩
  rename_i userId
  split
  · exact ⟨truthful_error _ _ _, fun _ _ => .inl⟩
  rename_i howner
  obtain rfl := not_not.mp howner
  split
  · rename_i n hfetch
    refine ⟨⟨by simp [hfetch], ?_⟩, fun _ _ => .inl⟩
    rintro - response - ⟨⟩ hread
    simpa [Server.getWebsiteUpdate] using hread
  rename_i id hfetch
  split
  · exact ⟨truthful_error _ _ _, fun _ _ => .inl⟩
  split
  · exact ⟨truthful_error _ _ _, fun _ _ => .inl⟩
  unfold Server.readWebsiteUpdate
  split
  · exact ⟨truthful_error _ _ _, fun _ _ => .inl⟩
  refine ⟨⟨?_, by simp [hfetch]⟩, ?_⟩
  · rintro other response hother -
    obtain rfl := Fetch.read.inj (hfetch.symm.trans hother)
    exact Function.update_self _ _ _
  · intro u a hseen
    dsimp only at hseen
    by_cases hu : u = call.owner
    · subst hu
      rw [Function.update_self] at hseen
      exact .inr ⟨rfl, hfetch.trans (congrArg Fetch.read (Option.some.inj hseen))⟩
    · rw [Function.update_of_ne hu] at hseen
      exact .inl hseen

section Website

variable {server : Server} {events : List Event}

/-- The website after a run from its start. -/
def after (server : Server) (events : List Event) : Website :=
  AfkClient.run Website.step { server } events

theorem after_append (event : Event) :
    after server (events ++ [event]) = (after server events).step event := by
  rw [after, run_append, run_cons, run_nil]
  rfl

/-- At some moment of the run an announcement was marked as read. -/
def Marked (server : Server) (events : List Event) (userId announcementId : String) : Prop :=
  ∃ earlier, earlier <+: events ∧
    (after server earlier).server.lastSeenWebsiteUpdate userId = some announcementId

/-- At some moment of the run a dialog showed an announcement to a user. -/
def Shown (server : Server) (events : List Event) (userId announcementId : String) : Prop :=
  ∃ earlier, earlier <+: events ∧
    ∃ tab, Displays ((after server earlier).tabs tab) userId announcementId

theorem Marked.append {u a : String} (event : Event) (h : Marked server events u a) :
    Marked server (events ++ [event]) u a := by
  obtain ⟨earlier, hearlier, hseen⟩ := h
  exact ⟨earlier, hearlier.trans (List.prefix_append _ _), hseen⟩

theorem Shown.append {u a : String} (event : Event) (h : Shown server events u a) :
    Shown server (events ++ [event]) u a := by
  obtain ⟨earlier, hearlier, hdisplays⟩ := h
  exact ⟨earlier, hearlier.trans (List.prefix_append _ _), hdisplays⟩

/-- What holds of one tab at the end of a run. -/
structure TabHistory (server : Server) (events : List Event) (tab : Tab) : Prop where
  sound : Sound tab
  clear : Clear tab
  backed : Backed (Marked server events) tab.calls
  noted : Noted (Marked server events) tab
  shown : ∀ call ∈ tab.calls, ∀ id, call.fetch = .read id → Shown server events call.owner id

structure History (server : Server) (events : List Event) : Prop where
  tabs : ∀ tab, TabHistory server events ((after server events).tabs tab)
  seen : ∀ u a, (after server events).server.lastSeenWebsiteUpdate u = some a →
    server.lastSeenWebsiteUpdate u = some a ∨ Shown server events u a

theorem TabHistory.append {tab : Tab} (event : Event) (h : TabHistory server events tab) :
    TabHistory server (events ++ [event]) tab where
  sound := h.sound
  clear := h.clear
  backed := h.backed.mono fun _ _ => Marked.append event
  noted := h.noted.mono fun _ _ => Marked.append event
  shown call hmem id hfetch := (h.shown call hmem id hfetch).append event

theorem history_nil (server : Server) : History server [] where
  tabs tab := by
    refine ⟨sound_initial, ?_, ⟨?_, ?_⟩, ?_, ?_⟩
    · rintro ⟨⟩
    · rintro call ⟨⟩
    · rintro call ⟨⟩
    · rintro run ⟨⟩
    · rintro call ⟨⟩
  seen _ _ := .inl

theorem History.tab (h : History server events) (tab : ℕ) (event : Tab.Event) :
    History server (events ++ [.tab tab event]) := by
  have hafter : after server (events ++ [.tab tab event]) =
    (after server events).step (.tab tab event) := after_append _
  refine ⟨fun other => ?_, fun u a hseen => ?_⟩
  · by_cases hother : other = tab
    · subst hother
      have hold := h.tabs other
      have hnow : (after server (events ++ [.tab other event])).tabs other =
          ((after server events).tabs other).step event := by
        rw [hafter]
        exact Function.update_self _ _ _
      have hkeeps := hold.sound.keeps_step hold.backed event
      have hnext := TabHistory.append (.tab other event) hold
      rw [hnow]
      refine ⟨hold.sound.step event, hkeeps.clear hold.clear, hnext.backed.step hkeeps.shows,
        (hkeeps.noted hold.noted).mono fun _ _ => Marked.append _, ?_⟩
      intro call hmem id hfetch
      rcases hkeeps.shows call hmem with ⟨past, hpast, howner, hfetch', -⟩ | ⟨-, hdisplays⟩
      · exact howner ▸ hnext.shown past hpast id (hfetch'.trans hfetch)
      · exact ⟨_, List.prefix_rfl, other, hnow ▸ hdisplays id hfetch⟩
    · rw [hafter]
      have hsame : ((after server events).step (.tab tab event)).tabs other =
          (after server events).tabs other := Function.update_of_ne hother _ _
      rw [hsame]
      exact (h.tabs other).append _
  · rw [hafter] at hseen
    exact (h.seen u a hseen).imp_right (Shown.append _)

theorem History.publish (h : History server events) (announcementId : String) :
    History server (events ++ [.publish announcementId]) := by
  refine ⟨fun other => ?_, fun u a hseen => ?_⟩
  · rw [after_append]
    exact (h.tabs other).append _
  · rw [after_append] at hseen
    exact (h.seen u a hseen).imp_right (Shown.append _)

theorem History.handle (h : History server events) (tab i : ℕ) (session : Option String)
    (csrf : Bool) :
    History server (events ++ [.handle tab i session csrf]) := by
  have hafter : after server (events ++ [.handle tab i session csrf]) =
    (after server events).handle tab i session csrf := after_append _
  have hstay (hsame : after server (events ++ [.handle tab i session csrf]) = after server events) :
      History server (events ++ [.handle tab i session csrf]) := by
    refine ⟨fun other => ?_, fun u a hseen => ?_⟩
    · rw [hsame]
      exact (h.tabs other).append _
    · rw [hsame] at hseen
      exact (h.seen u a hseen).imp_right (Shown.append _)
  unfold Website.handle at hafter
  split at hafter
  · exact hstay hafter
  rename_i call hcall
  have hmem := List.mem_of_getElem? hcall
  split at hafter
  · exact hstay hafter
  obtain ⟨htruthful, hmoves⟩ := answer_spec (after server events).server session csrf call
  have hserver : (after server (events ++ [.handle tab i session csrf])).server =
      ((after server events).server.answer session csrf call).2 := by rw [hafter]
  refine ⟨fun other => ?_, fun u a hseen => ?_⟩
  · by_cases hother : other = tab
    · subst hother
      have hold := h.tabs other
      have hnext := TabHistory.append (.handle other i session csrf) hold
      have hnow : (after server (events ++ [.handle other i session csrf])).tabs other =
          ((after server events).tabs other).answered i call
            ((after server events).server.answer session csrf call).1 := by
        rw [hafter]
        exact Function.update_self _ _ _
      rw [hnow]
      refine ⟨hold.sound.answered hcall _, hold.clear, ⟨?_, ?_⟩, hnext.noted, ?_⟩
      · intro answered hanswered id response hfetch hanswer
        rcases List.mem_or_eq_of_mem_set hanswered with hpast | rfl
        · exact hnext.backed.read answered hpast id response hfetch hanswer
        · refine ⟨_, List.prefix_rfl, ?_⟩
          rw [hserver]
          exact htruthful.read id response hfetch (Option.some.inj hanswer)
      · intro answered hanswered n response hfetch hanswer hread
        rcases List.mem_or_eq_of_mem_set hanswered with hpast | rfl
        · exact hnext.backed.updates answered hpast n response hfetch hanswer hread
        · refine ⟨_, List.prefix_rfl, ?_⟩
          rw [hserver]
          exact htruthful.updates n response hfetch (Option.some.inj hanswer) hread
      · intro answered hanswered id hfetch
        rcases List.mem_or_eq_of_mem_set hanswered with hpast | rfl
        · exact hnext.shown answered hpast id hfetch
        · exact hnext.shown call hmem id hfetch
    · have hsame : (after server (events ++ [.handle tab i session csrf])).tabs other =
          (after server events).tabs other := by
        rw [hafter]
        exact Function.update_of_ne hother _ _
      rw [hsame]
      exact (h.tabs other).append _
  · rw [hserver] at hseen
    rcases hmoves u a hseen with hold | ⟨rfl, hfetch⟩
    · exact (h.seen u a hold).imp_right (Shown.append _)
    · exact .inr (((h.tabs tab).shown call hmem a hfetch).append _)

theorem history (server : Server) (events : List Event) : History server events := by
  induction events using List.reverseRecOn with
  | nil => exact history_nil server
  | append_singleton events event ih =>
      cases event with
      | tab tab event => exact ih.tab tab event
      | handle tab call session csrf => exact ih.handle tab call session csrf
      | publish announcementId => exact ih.publish announcementId

/-- In every run of any number of tabs against the server: a tab has as many requests of each kind
under way as its flags say, so at most one; a user's marker is what it was at the start, or an
announcement that a dialog has shown to this user; an open dialog shows nothing as unread; and what
is shown as read was marked for this user, or is still to be acknowledged. -/
theorem updates_acknowledged (server : Server) (events : List Event) :
    let website := after server events
    (∀ tab run, (website.tabs tab).run = some run →
      awaited (website.tabs tab).effects true (website.tabs tab).calls = run.refreshing.toNat ∧
      awaited (website.tabs tab).effects false (website.tabs tab).calls = run.saving.toNat) ∧
    (∀ u a, website.server.lastSeenWebsiteUpdate u = some a →
      server.lastSeenWebsiteUpdate u = some a ∨ Shown server events u a) ∧
    (∀ tab, Clear (website.tabs tab)) ∧
    ∀ tab response, (website.tabs tab).data = some response → response.unread = false →
      ∃ run, (website.tabs tab).run = some run ∧ (website.tabs tab).userId = some run.userId ∧
        (run.pendingRead = some response.announcementId ∨
          Marked server events run.userId response.announcementId) := by
  intro website
  have h := history server events
  refine ⟨fun tab run hrun => ?_, h.seen, fun tab => (h.tabs tab).clear, ?_⟩
  · have hcalls := ((h.tabs tab).sound.run run hrun).calls
    exact ⟨hcalls.refreshing, hcalls.saving⟩
  · intro tab response hdata hread
    cases hrun : (website.tabs tab).run with
    | none =>
        rw [(h.tabs tab).sound.idle hrun] at hdata
        cases hdata
    | some run =>
        have hr := (h.tabs tab).sound.run run hrun
        refine ⟨run, rfl, hr.userId, ?_⟩
        exact (h.tabs tab).noted run hrun response (hr.data.symm.trans hdata) hread

end Website

end AfkClient.WebsiteUpdates

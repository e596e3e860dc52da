import AfkClient.Verification.Profile.Updates

/-! As long as no release takes up an old announcement again, an announcement that a tab shows as
read is never shown there as unread again, in whatever order the responses come. -/

namespace AfkClient.WebsiteUpdates

open Tab

variable {s t : Tab} {run : UpdatesRun} {i : ℕ} {call : Call}

/-! ### The data of a tab -/

/-- What was shown as read is not shown as unread. -/
def Stays (s t : Tab) : Prop :=
  ∀ old, s.data = some old → old.unread = false →
    ∀ new, t.data = some new → new.announcementId = old.announcementId → new.unread = false

theorem stays_of_data (h : t.data = s.data) : Stays s t := by
  intro old hold hread new hnew _
  obtain rfl : old = new := Option.some.inj (hold.symm.trans (h.symm.trans hnew))
  exact hread

theorem stays_of_none (h : t.data = none) : Stays s t := by
  intro old _ _ new hnew _
  rw [h] at hnew
  cases hnew

theorem Stays.after_data {u : Tab} (h : t.data = s.data) (hstays : Stays t u) : Stays s u :=
  fun old hold => hstays old (h.trans hold)

theorem Sound.stays_read (h : Sound t) : Stays s t.read :=
  fun _ _ _ _ hnew _ => read_clear h hnew

theorem refresh_data : s.refresh.data = s.data := by
  unfold Tab.refresh
  split
  · rfl
  · split <;> rfl

theorem Sound.stays_readOrRefresh (h : Sound s) : Stays s s.readOrRefresh := by
  unfold Tab.readOrRefresh
  split
  · exact h.stays_read
  · exact stays_of_data refresh_data

/-- A response under way that is not outdated agrees with what is shown as read. -/
def Prompt (s : Tab) : Prop :=
  ∀ run, s.run = some run → ∀ call ∈ s.calls, call.effect = s.effects → call.settled = false →
    call.fetch = .updates run.revision → ∀ result, call.answer = some (.ok result) →
      ∀ response, run.response = some response → response.unread = false →
        result.announcementId = response.announcementId →
          run.pendingRead = some response.announcementId ∨ result.unread = false

theorem stays_refreshEnd {startedAt : ℕ} {result : Option Answer}
    (heffects : ∀ call ∈ s.calls, call.effect ≤ s.effects)
    (hr : RunSound s { run with refreshing := false })
    (hfree : run.revision = startedAt → run.saving = false)
    (hprompt : run.revision = startedAt → ∀ new, result = some (.ok new) → ∀ old,
      run.response = some old → old.unread = false → new.announcementId = old.announcementId →
        run.pendingRead = some old.announcementId ∨ new.unread = false) :
    Stays s (s.refreshEnd run startedAt result) := by
  unfold Tab.refreshEnd
  dsimp only
  have hr' : RunSound { s with run := some { run with refreshing := false }, loading := false }
    { run with refreshing := false } := ⟨hr.userId, hr.data, hr.isOpen, hr.pending, hr.calls⟩
  split
  · rename_i new
    split
    · exact stays_of_data rfl
    rename_i hcurrent
    have hcurrent := not_not.mp hcurrent
    split
    · exact (sound_refreshed hr' heffects (hfree hcurrent) new).stays_read
    intro old hold hread later hlater hsame
    unfold Tab.refreshed at hlater
    split at hlater
    · cases hlater
      rfl
    · rename_i hpending
      cases hlater
      rcases hprompt hcurrent new rfl old (hr.data.symm.trans hold) hread hsame with hold' | hnew
      · exact absurd (hold'.trans (congrArg some hsame.symm)) hpending
      · exact hnew
  · split
    · exact stays_of_data rfl
    · exact stays_of_data rfl

theorem stays_readEnd {result : Option Answer} : Stays s (s.readEnd run result) := by
  unfold Tab.readEnd
  dsimp only
  split
  · exact stays_of_data rfl
  · exact stays_of_none rfl
  · exact stays_of_data rfl

theorem Sound.stays_settle (h : Sound s) (hprompt : Prompt s) (i : ℕ)
    (result : Call → Option (Option Answer))
    (hresult : ∀ call answer, result call = some (some answer) → call.answer = some answer) :
    Stays s (s.settle i result) := by
  have hsettles := h.settles i result
  generalize s.settle i result = u at hsettles
  cases hsettles with
  | same => exact stays_of_data rfl
  | taken => exact stays_of_data rfl
  | refreshes htaken hwaits hfetch hanswer hsound =>
      rename_i run call startedAt answer calls
      refine Stays.after_data ?_ (stays_refreshEnd htaken.effects hsound (hwaits.free h hfetch) ?_)
      · rfl
      · rintro hcurrent new rfl old hold hread hsame
        exact hprompt run hwaits.run call hwaits.mem hwaits.effect hwaits.unsettled
          (hfetch.trans (congrArg _ hcurrent.symm)) new (hresult call _ hanswer) old hold hread
          hsame
  | reads => exact fun old hold => stays_readEnd old hold

theorem stays_signIn (userId : Option String) : Stays s (s.signIn userId) := by
  unfold Tab.signIn
  split
  · exact stays_of_data rfl
  · refine stays_of_none ?_
    rw [refresh_data]

theorem Sound.stays_onShow (h : Sound s) : Stays s s.onShow := by
  unfold Tab.onShow
  split
  · exact stays_of_data rfl
  rename_i run hrun
  split
  · exact stays_of_data rfl
  refine Stays.after_data ?_ (Sound.stays_readOrRefresh
    (sound_of_run ?_ rfl ((h.run run hrun).toggle true)))
  · rfl
  · exact h.effects

theorem Sound.stays_onRetry (h : Sound s) : Stays s s.onRetry := by
  unfold Tab.onRetry
  split
  · exact stays_of_data rfl
  split
  · exact stays_of_data rfl
  split
  · exact stays_of_data rfl
  · exact h.stays_readOrRefresh

theorem Sound.stays_step (h : Sound s) (hprompt : Prompt s) (event : Tab.Event) :
    Stays s (s.step event) := by
  cases event with
  | signIn userId => exact stays_signIn userId
  | onFocus => exact stays_of_data refresh_data
  | onShow => exact h.stays_onShow
  | onClose => exact stays_of_data rfl
  | onRetry => exact h.stays_onRetry
  | respond call => exact h.stays_settle hprompt call _ (by simp)
  | fail call => exact h.stays_settle hprompt call (fun _ => some none) (by simp)

/-! ### Responses under way -/

theorem Sound.prompt_of_idle (h : Sound s)
    (hidle : ∀ run, s.run = some run → run.refreshing = false) : Prompt s := by
  intro run hrun call hmem heffect hopen hfetch
  have hkind : call.fetch.isUpdates = true := by rw [hfetch]; rfl
  have hpos := awaited_pos hmem heffect hopen hkind
  rw [(h.run run hrun).calls.refreshing, hidle run hrun] at hpos
  exact absurd hpos (lt_irrefl 0)

theorem Sound.prompt_read (h : Sound s) (hprompt : Prompt s) : Prompt s.read := by
  unfold Tab.read
  split
  · exact hprompt
  rename_i run hrun
  split
  · exact hprompt
  split
  · exact hprompt
  rintro later ⟨⟩ call hmem heffect hopen hfetch
  rcases List.mem_append.mp hmem with hold | hnew
  · have hle := ((h.run run hrun).calls.started call hold heffect hopen _ hfetch).1
    exact absurd hle (Nat.not_succ_le_self _)
  · rw [List.mem_singleton.mp hnew] at hfetch
    cases hfetch

theorem prompt_refresh (hprompt : Prompt s) : Prompt s.refresh := by
  unfold Tab.refresh
  split
  · exact hprompt
  rename_i run hrun
  split
  · exact hprompt
  rintro later ⟨⟩ call hmem heffect hopen hfetch result hanswer
  rcases List.mem_append.mp hmem with hold | hnew
  · exact hprompt run hrun call hold heffect hopen hfetch result hanswer
  · rw [List.mem_singleton.mp hnew] at hanswer
    cases hanswer

theorem Sound.prompt_readOrRefresh (h : Sound s) (hprompt : Prompt s) : Prompt s.readOrRefresh := by
  unfold Tab.readOrRefresh
  split
  · exact h.prompt_read hprompt
  · exact prompt_refresh hprompt

theorem read_refreshing (h : ∀ run, s.run = some run → run.refreshing = false) :
    ∀ run, s.read.run = some run → run.refreshing = false := by
  unfold Tab.read
  split
  · exact h
  rename_i run hrun
  split
  · exact h
  split
  · exact h
  rintro later ⟨⟩
  exact h run hrun

theorem refreshed_run (result : WebsiteUpdateResponse) :
    ∀ later, (s.refreshed run result).run = some later → later.refreshing = run.refreshing := by
  unfold Tab.refreshed
  split
  · rintro later ⟨⟩
    rfl
  · rintro later ⟨⟩
    rfl

theorem refreshEnd_refreshing (startedAt : ℕ) (result : Option Answer) :
    ∀ later, (s.refreshEnd run startedAt result).run = some later → later.refreshing = false := by
  unfold Tab.refreshEnd
  dsimp only
  split
  · split
    · rintro later ⟨⟩
      rfl
    split
    · exact read_refreshing (refreshed_run _)
    · exact refreshed_run _
  · split
    · rintro later ⟨⟩
      rfl
    · rintro later ⟨⟩
      rfl

theorem Sound.prompt_settle (h : Sound s) (hprompt : Prompt s) (i : ℕ)
    (result : Call → Option (Option Answer)) : Prompt (s.settle i result) := by
  have hsettles := h.settles i result
  generalize s.settle i result = u at hsettles
  cases hsettles with
  | same => exact hprompt
  | taken htaken =>
      intro run hrun other hother heffect hopen
      exact hprompt run hrun other (htaken.unsettled other hother hopen) heffect hopen
  | refreshes htaken hwaits hfetch hanswer hsound =>
      exact Sound.prompt_of_idle (sound_refreshEnd htaken.effects hsound (hwaits.free h hfetch))
        (refreshEnd_refreshing _ _)
  | reads htaken hwaits hfetch hanswer hsound =>
      rename_i run call id answer calls
      have hcalls := (h.run run hwaits.run).calls
      have hsaving : run.saving = true := by
        by_contra hidle
        exact hcalls.not_read (Bool.eq_false_iff.mpr hidle) hwaits.mem hwaits.effect
          hwaits.unsettled id hfetch
      -- What was sent before the acknowledgement has an older revision.
      have hold : ∀ other ∈ calls, other.effect = s.effects → other.settled = false →
          other.fetch ≠ .updates run.revision := by
        intro other hother heffect hopen hfetch'
        have hlt := (hcalls.started other (htaken.unsettled other hother hopen) heffect hopen _
          hfetch').2 hsaving
        exact lt_irrefl _ hlt
      unfold Tab.readEnd
      dsimp only
      split
      · rintro later ⟨⟩ other hother heffect hopen hfetch'
        exact absurd hfetch' (hold other hother heffect hopen)
      · rintro later ⟨⟩ other hother heffect hopen hfetch'
        exact absurd hfetch' (hold other hother heffect hopen)
      · rintro later ⟨⟩ other hother heffect hopen hfetch'
        exact absurd hfetch' (hold other hother heffect hopen)

theorem prompt_signIn (hprompt : Prompt s) (userId : Option String) :
    Prompt (s.signIn userId) := by
  unfold Tab.signIn
  split
  · exact hprompt
  refine prompt_refresh ?_
  intro run hrun
  obtain ⟨user, -, rfl⟩ := Option.map_eq_some_iff.mp hrun
  rintro call - - - - result - response ⟨⟩

theorem Sound.prompt_onShow (h : Sound s) (hprompt : Prompt s) : Prompt s.onShow := by
  unfold Tab.onShow
  split
  · exact hprompt
  rename_i run hrun
  split
  · exact hprompt
  refine Sound.prompt_readOrRefresh (sound_of_run ?_ rfl ((h.run run hrun).toggle true)) ?_
  · exact h.effects
  · rintro later ⟨⟩
    exact hprompt run hrun

theorem prompt_onClose (hprompt : Prompt s) : Prompt s.onClose := by
  intro closed hclosed
  obtain ⟨run, hrun, rfl⟩ := Option.map_eq_some_iff.mp hclosed
  exact hprompt run hrun

theorem Sound.prompt_onRetry (h : Sound s) (hprompt : Prompt s) : Prompt s.onRetry := by
  unfold Tab.onRetry
  split
  · exact hprompt
  split
  · exact hprompt
  split
  · exact hprompt
  · exact h.prompt_readOrRefresh hprompt

theorem Sound.prompt_step (h : Sound s) (hprompt : Prompt s) (event : Tab.Event) :
    Prompt (s.step event) := by
  cases event with
  | signIn userId => exact prompt_signIn hprompt userId
  | onFocus => exact prompt_refresh hprompt
  | onShow => exact h.prompt_onShow hprompt
  | onClose => exact prompt_onClose hprompt
  | onRetry => exact h.prompt_onRetry hprompt
  | respond call => exact h.prompt_settle hprompt call _
  | fail call => exact h.prompt_settle hprompt call fun _ => some none

/-! ### The marker -/

/-- A user has read an announcement: it is marked, or it is no longer the current one. -/
def Settled (server : Server) (userId announcementId : String) : Prop :=
  (server.announcementId = announcementId ∧
    server.lastSeenWebsiteUpdate userId = some announcementId) ∨ announcementId ∈ server.retired

/-- What an answer says is about the current announcement, and so is what it marks. -/
structure Current (server : Server) (call : Call) (answer : Answer) (later : Server) : Prop where
  announcementId : later.announcementId = server.announcementId
  retired : later.retired = server.retired
  seen : ∀ u, later.lastSeenWebsiteUpdate u = server.lastSeenWebsiteUpdate u ∨
    later.lastSeenWebsiteUpdate u = some server.announcementId
  read : ∀ id response, call.fetch = .read id → answer = .ok response → id = server.announcementId
  updates : ∀ n response, call.fetch = .updates n → answer = .ok response →
    response = server.getWebsiteUpdate call.owner

theorem current_error (server : Server) (call : Call) (refusal : Refusal) :
    Current server call (.error refusal) server := ⟨rfl, rfl, fun _ => .inl rfl, by simp, by simp⟩

theorem answer_current (server : Server) (session : Option String) (csrf : Bool) (call : Call) :
    Current server call (server.answer session csrf call).1
      (server.answer session csrf call).2 := by
  unfold Server.answer
  split
  · exact current_error _ _ _
  rename_i userId
  split
  · exact current_error _ _ _
  rename_i howner
  obtain rfl := not_not.mp howner
  split
  · rename_i n hfetch
    refine ⟨rfl, rfl, fun _ => .inl rfl, by simp [hfetch], ?_⟩
    rintro - response - ⟨⟩
    rfl
  rename_i id hfetch
  split
  · exact current_error _ _ _
  split
  · exact current_error _ _ _
  unfold Server.readWebsiteUpdate
  split
  · exact current_error _ _ _
  rename_i hid
  have hid := not_not.mp hid
  refine ⟨rfl, rfl, fun u => ?_, ?_, by simp [hfetch]⟩
  · by_cases hu : u = call.owner
    · subst hu
      exact .inr ((Function.update_self _ _ _).trans (congrArg some hid))
    · exact .inl (Function.update_of_ne hu _ _)
  · rintro other response hother -
    exact (Fetch.read.inj (hfetch.symm.trans hother)).symm.trans hid

theorem Current.settled {server later : Server} {answer : Answer}
    (h : Current server call answer later) {u a : String} (hsettled : Settled server u a) :
    Settled later u a := by
  rcases hsettled with ⟨hcurrent, hseen⟩ | hretired
  · refine .inl ⟨h.announcementId.trans hcurrent, ?_⟩
    rcases h.seen u with hsame | hnew
    · exact hsame.trans hseen
    · exact hnew.trans (congrArg some hcurrent)
  · exact .inr (h.retired.symm ▸ hretired)

theorem Settled.publish {server : Server} {u a : String} (h : Settled server u a) (id : String) :
    Settled (server.publish id) u a := by
  rcases h with ⟨rfl, -⟩ | hretired
  · exact .inr List.mem_cons_self
  · exact .inr (List.mem_cons_of_mem _ hretired)

/-! ### Runs -/

structure BadgeTab (server : Server) (tab : Tab) : Prop where
  sound : Sound tab
  backed : Backed (Settled server) tab.calls
  noted : Noted (Settled server) tab
  prompt : Prompt tab

structure Badge (website : Website) : Prop where
  current : website.server.announcementId ∉ website.server.retired
  tabs : ∀ tab, BadgeTab website.server (website.tabs tab)

/-- A release comes with an announcement that there has not been yet. -/
def NewAnnouncement (website : Website) (event : Event) : Prop :=
  ∀ id, event = .publish id →
    id ≠ website.server.announcementId ∧ id ∉ website.server.retired

theorem BadgeTab.mono {server later : Server} {tab : Tab}
    (hsettled : ∀ u a, Settled server u a → Settled later u a) (h : BadgeTab server tab) :
    BadgeTab later tab :=
  ⟨h.sound, h.backed.mono hsettled, h.noted.mono hsettled, h.prompt⟩

theorem BadgeTab.step {server : Server} {tab : Tab} (h : BadgeTab server tab) (event : Tab.Event) :
    BadgeTab server (tab.step event) := by
  have hkeeps := h.sound.keeps_step h.backed event
  exact ⟨h.sound.step event, h.backed.step hkeeps.shows, hkeeps.noted h.noted,
    h.sound.prompt_step h.prompt event⟩

theorem BadgeTab.answered {server later : Server} {tab : Tab} {answer : Answer}
    (h : BadgeTab server tab) (hcurrent : server.announcementId ∉ server.retired)
    (hcall : tab.calls[i]? = some call) (htruthful : Truthful later call answer)
    (hlater : Current server call answer later) : BadgeTab later (tab.answered i call answer) := by
  have hmono := h.mono fun _ _ => hlater.settled
  refine ⟨h.sound.answered hcall answer, ⟨?_, ?_⟩, hmono.noted, ?_⟩
  · intro other hother id response hfetch hanswer
    rcases List.mem_or_eq_of_mem_set hother with hpast | rfl
    · exact hmono.backed.read other hpast id response hfetch hanswer
    · have hok := Option.some.inj hanswer
      exact .inl ⟨hlater.announcementId.trans (hlater.read id response hfetch hok).symm,
        htruthful.read id response hfetch hok⟩
  · intro other hother n response hfetch hanswer hread
    rcases List.mem_or_eq_of_mem_set hother with hpast | rfl
    · exact hmono.backed.updates other hpast n response hfetch hanswer hread
    · have hok := Option.some.inj hanswer
      refine .inl ⟨hlater.announcementId.trans ?_, htruthful.updates n response hfetch hok hread⟩
      rw [hlater.updates n response hfetch hok]
      rfl
  · intro run hrun other hother heffect hopen hfetch result hanswer response hresponse hread hsame
    rcases List.mem_or_eq_of_mem_set hother with hpast | rfl
    · exact h.prompt run hrun other hpast heffect hopen hfetch result hanswer response hresponse
        hread hsame
    · have howner := (h.sound.run run hrun).calls.owner call (List.mem_of_getElem? hcall) heffect
      have hresult := hlater.updates _ result hfetch (Option.some.inj hanswer)
      have hid : server.announcementId = response.announcementId := by
        rw [← hsame, hresult]
        rfl
      rcases h.noted run hrun response hresponse hread with hpending | ⟨-, hseen⟩ | hretired
      · exact .inl hpending
      · refine .inr ?_
        rw [hresult, Server.getWebsiteUpdate, howner, hseen, hid]
        simp
      · exact absurd (hid ▸ hretired) hcurrent

variable {website : Website}

theorem Badge.step (h : Badge website) {event : Event} (hnew : NewAnnouncement website event) :
    Badge (website.step event) := by
  cases event with
  | tab tab event =>
      refine ⟨h.current, fun other => ?_⟩
      by_cases hother : other = tab
      · subst hother
        unfold Website.step
        dsimp only
        rw [Function.update_self]
        exact (h.tabs other).step event
      · unfold Website.step
        dsimp only
        rw [Function.update_of_ne hother]
        exact h.tabs other
  | publish id =>
      obtain ⟨hid, hretired⟩ := hnew id rfl
      refine ⟨?_, fun tab => (h.tabs tab).mono fun _ _ hsettled => hsettled.publish id⟩
      exact fun hmem => (List.mem_cons.mp hmem).elim hid hretired
  | handle tab i session csrf =>
      unfold Website.step Website.handle
      dsimp only
      split
      · exact h
      rename_i call hcall
      split
      · exact h
      have hlater := answer_current website.server session csrf call
      refine ⟨?_, fun other => ?_⟩
      · rw [hlater.announcementId, hlater.retired]
        exact h.current
      · by_cases hother : other = tab
        · subst hother
          dsimp only
          rw [Function.update_self]
          exact (h.tabs other).answered h.current hcall
            (answer_spec website.server session csrf call).1 hlater
        · dsimp only
          rw [Function.update_of_ne hother]
          exact (h.tabs other).mono fun _ _ => hlater.settled

theorem Badge.stays (h : Badge website) (event : Event) (tab : ℕ) :
    Stays (website.tabs tab) ((website.step event).tabs tab) := by
  cases event with
  | tab other event =>
      by_cases hother : tab = other
      · subst hother
        unfold Website.step
        dsimp only
        rw [Function.update_self]
        exact (h.tabs tab).sound.stays_step (h.tabs tab).prompt event
      · unfold Website.step
        dsimp only
        rw [Function.update_of_ne hother]
        exact stays_of_data rfl
  | publish id => exact stays_of_data rfl
  | handle other i session csrf =>
      unfold Website.step Website.handle
      dsimp only
      split
      · exact stays_of_data rfl
      split
      · exact stays_of_data rfl
      dsimp only
      by_cases hother : tab = other
      · subst hother
        rw [Function.update_self]
        exact stays_of_data rfl
      · rw [Function.update_of_ne hother]
        exact stays_of_data rfl

/-- When no release takes up an old announcement, then in every run no step of it makes any tab
show an announcement as unread that it showed as read before the step. -/
theorem badge_stays_clear (server : Server) (events : List Event)
    (hcurrent : server.announcementId ∉ server.retired)
    (hnew : Meets Website.step NewAnnouncement { server } events) :
    Meets Website.step
      (fun website event => ∀ tab, Stays (website.tabs tab) ((website.step event).tabs tab))
      { server } events := by
  have hstart : Badge { server } := by
    refine ⟨hcurrent, fun tab => ⟨sound_initial, ⟨?_, ?_⟩, ?_, ?_⟩⟩
    · rintro call ⟨⟩
    · rintro call ⟨⟩
    · rintro run ⟨⟩
    · rintro run ⟨⟩
  exact meets_of_preserved
    (fun website event h hevent => ⟨h.step hevent, h.stays event⟩) hstart hnew

theorem badge_stays_clear_release :
    Meets Website.step
      (fun website event => ∀ tab, Stays (website.tabs tab) ((website.step event).tabs tab))
      { server := { announcementId := "stability" } }
      [.publish "features", .tab 0 (.signIn (some "owner")), .handle 0 0 (some "owner") true,
        .tab 0 (.respond 0), .tab 0 .onShow, .tab 0 .onFocus] := by
  refine badge_stays_clear _ _ (by simp) ⟨?_, ?_, ?_, ?_, ?_, ?_, trivial⟩
  · rintro id ⟨⟩
    exact ⟨by decide, by simp⟩
  · rintro id ⟨⟩
  · rintro id ⟨⟩
  · rintro id ⟨⟩
  · rintro id ⟨⟩
  · rintro id ⟨⟩

end AfkClient.WebsiteUpdates

import AfkClient.Model.AccountSettings

/-! Saves of several settings panels of one account, against the last change of each setting. -/

namespace AfkClient.AccountSettings

instance (setting : Setting) : DecidableEq setting.Value :=
  match setting with
  | .displayName => inferInstanceAs (DecidableEq String)
  | .crouchEnabled => inferInstanceAs (DecidableEq Bool)
  | .autoButton => inferInstanceAs (DecidableEq AutoButton)
  | .autoReconnect => inferInstanceAs (DecidableEq Bool)
  | .autoReturnHome => inferInstanceAs (DecidableEq Bool)
  | .serverHost => inferInstanceAs (DecidableEq String)
  | .serverPort => inferInstanceAs (DecidableEq ℕ)
  | .autoSellEnabled => inferInstanceAs (DecidableEq Bool)
  | .autoSellIntervalSeconds => inferInstanceAs (DecidableEq ℚ)
  | .autoSellCommand => inferInstanceAs (DecidableEq String)
  | .spawnerType => inferInstanceAs (DecidableEq String)
  | .spawnerActions => inferInstanceAs (DecidableEq (List (String × SpawnerAction)))

/-! ### The last change -/

/-- A setting has the value of the last save that changed it. -/
def latestSetting (initial : Settings) : List Entry → Settings
  | [] => initial
  | .patch panel settings :: before => fun setting =>
      if settings setting = panel.saved setting then latestSetting initial before setting
      else settings setting
  | _ :: before => latestSetting initial before

def latestVersion (initial : String) : List Entry → String
  | [] => initial
  | .version minecraftVersion :: _ => minecraftVersion
  | _ :: before => latestVersion initial before

/-- The assignment is kept for a user who is no admin. -/
def Panel.keeps (panel : Panel) (userId : String) : Bool := !panel.admin && userId == panel.userId

def latestAssigned (initial : Assigned) : List Entry → Assigned
  | [] => initial
  | .put panel assigned :: before => fun userId =>
      if panel.keeps userId then true
      else if assigned userId = panel.savedAssigned userId then latestAssigned initial before userId
      else assigned userId
  | _ :: before => latestAssigned initial before

theorem latestSetting_patch (initial : Settings) (panel : Panel) (settings : Settings)
    (before : List Entry) (setting : Setting) :
    latestSetting initial (.patch panel settings :: before) setting =
      if settings setting = panel.saved setting then latestSetting initial before setting
      else settings setting := rfl

theorem latestAssigned_put (initial : Assigned) (panel : Panel) (assigned : Assigned)
    (before : List Entry) (userId : String) :
    latestAssigned initial (.put panel assigned :: before) userId =
      if panel.keeps userId then true
      else if assigned userId = panel.savedAssigned userId then latestAssigned initial before userId
      else assigned userId := rfl

/-- No change is lost. -/
structure Kept (initial : Account) (s : State) : Prop where
  settings : s.account.settings = latestSetting initial.settings s.log
  minecraftVersion : s.account.minecraftVersion = latestVersion initial.minecraftVersion s.log
  assigned : s.account.assigned = latestAssigned initial.assigned s.log

/-- What a panel leaves as it is has not changed on the account. -/
def Undisturbed (s : State) : Event → Prop
  | .patch i => ∀ panel settings assigned, s.panels[i]? = some panel →
      panel.saving = some ⟨settings, assigned, false⟩ → ∀ setting,
        settings setting = panel.saved setting → s.account.settings setting = panel.saved setting
  | .put i => ∀ panel settings assigned, s.panels[i]? = some panel →
      panel.saving = some ⟨settings, assigned, true⟩ → ∀ userId, panel.keeps userId = false →
        assigned userId = panel.savedAssigned userId →
        s.account.assigned userId = panel.savedAssigned userId
  | _ => True

def AllUndisturbed : State → List Event → Prop
  | _, [] => True
  | s, event :: events => Undisturbed s event ∧ AllUndisturbed (s.step event) events

/-! ### One request -/

theorem kept_patch {initial : Account} {s t : State} (h : Kept initial s) {panel : Panel}
    {settings : Settings} (haccount : t.account = { s.account with settings := settings })
    (hlog : t.log = .patch panel settings :: s.log) :
    Kept initial t ↔ ∀ setting, settings setting = panel.saved setting →
      s.account.settings setting = panel.saved setting := by
  obtain ⟨hsettings, hversion, hassigned⟩ := h
  constructor
  · intro hkept setting hsame
    have hvalue := congrFun hkept.settings setting
    rw [haccount, hlog, latestSetting_patch, if_pos hsame, ← hsettings] at hvalue
    exact hvalue.symm.trans hsame
  · intro hundisturbed
    refine ⟨?_, by rw [haccount, hlog]; exact hversion, by rw [haccount, hlog]; exact hassigned⟩
    rw [haccount, hlog]
    funext setting
    rw [latestSetting_patch]
    split
    · rename_i hsame
      rw [← hsettings, hundisturbed setting hsame]
      exact hsame
    · rfl

theorem kept_put {initial : Account} {s t : State} (h : Kept initial s) {panel : Panel}
    {assigned : Assigned} (haccount : t.account = setAssignments panel assigned s.account)
    (hlog : t.log = .put panel assigned :: s.log) :
    Kept initial t ↔ ∀ userId, panel.keeps userId = false →
      assigned userId = panel.savedAssigned userId →
      s.account.assigned userId = panel.savedAssigned userId := by
  obtain ⟨hsettings, hversion, hassigned⟩ := h
  have hstored : ∀ userId, t.account.assigned userId =
      (assigned userId || panel.keeps userId) := by
    intro userId
    rw [haccount]
    rfl
  constructor
  · intro hkept userId hkeeps hsame
    have hvalue := congrFun hkept.assigned userId
    rw [hstored, hlog, latestAssigned_put, hkeeps, if_neg Bool.false_ne_true, if_pos hsame,
      ← hassigned, Bool.or_false] at hvalue
    exact hvalue.symm.trans hsame
  · intro hundisturbed
    refine ⟨by rw [haccount, hlog]; exact hsettings, by rw [haccount, hlog]; exact hversion, ?_⟩
    funext userId
    rw [hstored, hlog, latestAssigned_put]
    cases hkeeps : panel.keeps userId with
    | true => rw [Bool.or_true, if_pos rfl]
    | false =>
        rw [Bool.or_false, if_neg Bool.false_ne_true]
        split
        · rename_i hsame
          rw [← hassigned, hundisturbed userId hkeeps hsame]
          exact hsame
        · rfl

/-- A request that is under way is the only one its panel has. -/
theorem saving_unique {s : State} {i : ℕ} {panel panel' : Panel} {saving saving' : Saving}
    (hpanel : s.panels[i]? = some panel) (hsaving : panel.saving = some saving)
    (hpanel' : s.panels[i]? = some panel') (hsaving' : panel'.saving = some saving') :
    panel' = panel ∧ saving' = saving := by
  obtain rfl := Option.some.inj (hpanel.symm.trans hpanel')
  exact ⟨rfl, Option.some.inj (hsaving'.symm.trans hsaving)⟩

/-- Nothing is lost by a step if and only if it writes over nothing. -/
theorem step_kept {initial : Account} {s : State} (h : Kept initial s) (event : Event) :
    Kept initial (s.step event) ↔ Undisturbed s event := by
  cases event with
  | patch i =>
      rw [State.step]
      cases hpanel : s.panels[i]? with
      | none => exact iff_of_true h fun _ _ _ hnone => by cases hpanel.symm.trans hnone
      | some panel =>
          simp only
          split
          · rename_i settings assigned hsaving
            refine (@kept_patch initial s _ h panel settings rfl rfl).trans
              ⟨fun hsame panel' settings' assigned' hpanel' hsaving' => ?_,
                fun hsame => hsame panel settings assigned hpanel hsaving⟩
            obtain ⟨rfl, heq⟩ := saving_unique hpanel hsaving hpanel' hsaving'
            obtain ⟨rfl, -, -⟩ := Saving.mk.inj heq
            exact hsame
          · rename_i hidle
            refine iff_of_true h fun panel' settings assigned hpanel' hsaving => ?_
            obtain rfl := Option.some.inj (hpanel.symm.trans hpanel')
            exact (hidle settings assigned hsaving).elim
  | put i =>
      rw [State.step]
      cases hpanel : s.panels[i]? with
      | none => exact iff_of_true h fun _ _ _ hnone => by cases hpanel.symm.trans hnone
      | some panel =>
          simp only
          split
          · rename_i settings assigned hsaving
            refine (@kept_put initial s _ h panel assigned rfl rfl).trans
              ⟨fun hsame panel' settings' assigned' hpanel' hsaving' => ?_,
                fun hsame => hsame panel settings assigned hpanel hsaving⟩
            obtain ⟨rfl, heq⟩ := saving_unique hpanel hsaving hpanel' hsaving'
            obtain ⟨-, rfl, -⟩ := Saving.mk.inj heq
            exact hsame
          · rename_i hidle
            refine iff_of_true h fun panel' settings assigned hpanel' hsaving => ?_
            obtain rfl := Option.some.inj (hpanel.symm.trans hpanel')
            exact (hidle settings assigned hsaving).elim
  | applyVersion minecraftVersion => exact iff_of_true ⟨h.settings, rfl, h.assigned⟩ trivial
  | _ => exact iff_of_true ⟨h.settings, h.minecraftVersion, h.assigned⟩ trivial

/-! ### Runs -/

theorem run_kept {initial : Account} {s : State} (h : Kept initial s) (events : List Event) :
    (∀ before, before <+: events → Kept initial (s.run before)) ↔ AllUndisturbed s events := by
  induction events generalizing s with
  | nil =>
      refine iff_of_true (fun before hbefore => ?_) trivial
      obtain rfl := List.prefix_nil.mp hbefore
      exact h
  | cons event events ih =>
      rw [AllUndisturbed]
      constructor
      · intro hkept
        have hstep := hkept [event] ⟨events, rfl⟩
        refine ⟨(step_kept h event).mp hstep, (ih hstep).mp fun before hbefore => ?_⟩
        exact hkept (event :: before) ((List.prefix_cons_inj event).mpr hbefore)
      · rintro ⟨hevent, hevents⟩ before hbefore
        cases before with
        | nil => exact h
        | cons first before =>
            obtain ⟨rfl, hrest⟩ := List.cons_prefix_cons.mp hbefore
            exact (ih ((step_kept h _).mpr hevent)).mpr hevents before hrest

/-- An account without panels. -/
def State.start (account : Account) : State := { account := account }

/-- At every moment each setting and each assignment is what the last save that changed it left, if
and only if no save writes over what its panel left as it was. -/
theorem saves_kept_iff (account : Account) (events : List Event) :
    (∀ before, before <+: events → Kept account ((State.start account).run before)) ↔
      AllUndisturbed (.start account) events :=
  run_kept ⟨rfl, rfl, rfl⟩ events

def defaults : Settings
  | .displayName => ""
  | .crouchEnabled => false
  | .autoButton => .off
  | .autoReconnect => true
  | .autoReturnHome => true
  | .serverHost => "play.hugosmp.net"
  | .serverPort => 25565
  | .autoSellEnabled => false
  | .autoSellIntervalSeconds => 60
  | .autoSellCommand => "/sell"
  | .spawnerType => ""
  | .spawnerActions => []

def renamed : Settings
  | .displayName => "Farm"
  | setting => defaults setting

def crouching : Settings
  | .crouchEnabled => true
  | setting => defaults setting

/-- Two panels are opened; one names the account, then the other makes it crouch. -/
def twoPanels : List Event :=
  [.open "a" true true defaults fun _ => false, .open "b" true true defaults fun _ => false,
    .edit 0 renamed, .saveSettings 0, .patch 0, .put 0, .edit 1 crouching, .saveSettings 1, .patch 1]

theorem saves_lost : ¬∀ (account : Account) (events : List Event),
    Kept account ((State.start account).run events) := by
  intro h
  have hname := congrFun (h ⟨defaults, "", fun _ => false⟩ twoPanels).settings .displayName
  revert hname
  decide

end AfkClient.AccountSettings

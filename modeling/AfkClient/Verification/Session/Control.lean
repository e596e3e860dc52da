import AfkClient.Library.Run
import AfkClient.Verification.Session.Machine

/-! Control messages and the native settings. A message is taken from the queue before its
remote calls run and is not put back when one of them fails, so the settings follow
the last messages exactly as long as none of their calls fails. -/

namespace AfkClient.Session

open AfkClient.Task

/-! ### What tasks promise -/

/-- What the settings must follow, and who may change it. -/
structure Steady where
  pinned : Behaviors.Pinned
  queued : List SessionCommand
  busy : Bool

def steady (s : SessionVars) : Steady := ⟨Behaviors.pinned s.behaviors, s.queued, s.busy⟩

/-- Any call but those that carry out a control message. -/
def NotControl : SessionCall → Prop
  | .game (.held _) => False
  | .nativeSellPause .. => False
  | _ => True

abbrev TaskStart := Start SessionVars SessionCall SessionCall.Reply Failure

/-- The segment began with the error of a call that carries out a control message. -/
def ControlRefused (start : TaskStart) : Prop :=
  start.refused ∧ ∃ c, start.asked = some c ∧ ¬ NotControl c

/-- The call a task begins with, and what it does before. -/
inductive FirstCall : Job → SessionVars → SessionCall → SessionVars → Prop where
  | configure {s t : SessionVars} {cfg rest} (hq : s.queued = .configure cfg :: rest)
      (ht : steady t = ⟨{ Behaviors.pinned s.behaviors with cfg := cfg }, rest, s.busy⟩) :
      FirstCall .scheduler s (.game (.held cfg)) t
  | pause {s t : SessionVars} {afterMs resumeMs rest}
      (hq : s.queued = .pauseAutosell afterMs resumeMs :: rest)
      (ht : steady t = ⟨Behaviors.pinned (s.behaviors.pause afterMs resumeMs), rest, s.busy⟩) :
      FirstCall .scheduler s (.nativeSellPause afterMs resumeMs) t
  | tick {s t : SessionVars} {c} (hq : s.queued = []) (hc : NotControl c)
      (ht : steady t = steady s) : FirstCall .scheduler s c t
  | spawned {s t : SessionVars} (ht : steady t = steady s) :
      FirstCall .spawned s (.game (.held s.behaviors.cfg)) t
  | aside {s t : SessionVars} {c} (hc : NotControl c) (ht : steady t = steady s) :
      FirstCall .aside s c t

/-- How a task ends that makes no call. -/
inductive FirstEnd : Job → SessionVars → Except Failure Ending → SessionVars → Prop where
  | message {s t : SessionVars} {m rest} (hq : s.queued = m :: rest)
      (hm : isConfigure m = false ∧ isPause m = false)
      (ht : steady t = { steady s with queued := rest }) : FirstEnd .scheduler s (.ok .again) t
  | ended {job} {s t : SessionVars} {r} (hq : job = .scheduler → s.queued = [])
      (hr : r ≠ .ok .again) (ht : steady t = steady s) : FirstEnd job s r t

def control (job : Job) : Contract SessionVars SessionCall SessionCall.Reply Failure where
  call start c s :=
    match start.answer with
    | none => FirstCall job start.state c s
    | some _ => NotControl c ∧ ¬ ControlRefused start ∧ steady s = steady start.state
  back _ _ _ := True

/-- A task behind its first call changes nothing; a scheduler pass ends with the error
of a control message. -/
def controlEnd (job : Job) (start : TaskStart) (r : Except Failure Ending) (s : SessionVars) : Prop :=
  match start.answer with
  | none => FirstEnd job start.state r s
  | some _ =>
      steady s = steady start.state ∧ (r = .ok .again → job = .scheduler) ∧
        (job = .scheduler → ControlRefused start → r = .ok .failed)

theorem not_controlRefused {s : SessionVars} {c : SessionCall} {a : Except Failure c.Reply}
    (h : NotControl c) : ¬ ControlRefused ⟨s, some ⟨c, a⟩⟩ := by
  rintro ⟨_, c', hc, hn⟩
  obtain rfl : c = c' := by simpa [Start.asked] using hc
  exact hn h

theorem not_controlRefused_ok {s : SessionVars} {c : SessionCall} {a : c.Reply} :
    ¬ ControlRefused ⟨s, some ⟨c, .ok a⟩⟩ := by
  rintro ⟨hr, -⟩
  simp [Start.refused, Except.isOk, Except.toBool] at hr

theorem behaving_steady {α : Type} {t : Behaviors.Code α} (h : Behaviors.Pins t) :
    (behaving t).Within steady NotControl := by
  refine h.embed (fun s b hb => by simp [steady, hb]) fun c hc => ?_
  cases c <;> first | exact hc.elim | trivial

/-- Behind its first call, code that leaves everything alone keeps the contract. -/
theorem keeps_of_within {α : Type} {job : Job} {t : Code α}
    {Q : TaskStart → Except Failure α → SessionVars → Prop} {s₀ s : SessionVars}
    {a : (c : SessionCall) × Except Failure c.Reply} (ht : t.Within steady NotControl)
    (hs : steady s = steady s₀) (ha : ¬ ControlRefused ⟨s₀, some a⟩)
    (hQ : ∀ s₀ a r s, ¬ ControlRefused ⟨s₀, some a⟩ → steady s = steady s₀ → Q ⟨s₀, some a⟩ r s) :
    t.Keeps (control job) Q ⟨s₀, some a⟩ s := by
  refine ht.keeps ?_ ?_ ?_ ?_
  · exact fun c s' hc hv => ⟨hc, ha, hv.trans hs⟩
  · exact fun r s' hv => hQ _ _ _ _ ha (hv.trans hs)
  · exact fun s₁ c₀ a₀ c s' hc₀ hc hv => ⟨hc, not_controlRefused hc₀, hv⟩
  · exact fun s₁ c₀ a₀ r s' hc₀ hv => hQ _ _ _ _ (not_controlRefused hc₀) hv

/-! ### The tasks keep their promises -/

theorem schedulerRound_control (s : SessionVars) :
    schedulerRound.Keeps (control .scheduler) (controlEnd .scheduler) ⟨s, none⟩ s := by
  have hwarn (message : String) (t : SessionVars) : steady
      (if 30_000 ≤ t.behaviors.now - t.lastWarning then
        { t.on (·.emit (.warning message)) with lastWarning := t.behaviors.now } else t) = steady t := by
    split <;> rfl
  simp only [schedulerRound, takeMessage, keeps_orCatch, keeps_bind, keeps_read]
  cases hq : s.queued with
  | nil =>
      simp only [keeps_bind]
      refine (behaving_steady Behaviors.tick_pins).keeps ?_ ?_ ?_ ?_
      · exact fun c t hc ht => .tick hq hc ht
      · intro r t ht
        cases r with
        | ok => exact .ended (fun _ => hq) (by simp) ht
        | error e => exact .ended (fun _ => hq) (by simp) ((hwarn _ t).trans ht)
      · exact fun s₀ c₀ a c t hc₀ hc ht => ⟨hc, not_controlRefused hc₀, ht⟩
      · intro s₀ c₀ a r t hc₀ ht
        have hr := not_controlRefused (a := a) (s := s₀) hc₀
        cases r with
        | ok => exact ⟨ht, by simp, fun _ hn => absurd hn hr⟩
        | error e => exact ⟨(hwarn _ t).trans ht, by simp, fun _ _ => rfl⟩
  | cons m rest =>
      simp only [keeps_bind, keeps_update]
      cases m with
      | configure cfg =>
          simp only [handleCommand, Behaviors.configure, behaving_bind, keeps_bind]
          refine keeps_behaving_await (.held cfg) (.configure hq ?_) fun a t _ => ?_
          · simp only [steady, Behaviors.pinned, Behaviors.applyConfig]
            split <;> rfl
          cases a with
          | error e => exact ⟨hwarn _ t, by simp, fun _ _ => rfl⟩
          | ok =>
              refine keeps_of_within (behaving_steady (Behaviors.applySell_aloof _ _).pins) rfl
                not_controlRefused_ok fun s₀ a r t ha ht => ?_
              cases r with
              | ok => exact ⟨ht, by simp, fun _ hn => absurd hn ha⟩
              | error e => exact ⟨(hwarn _ t).trans ht, by simp, fun _ _ => rfl⟩
      | pauseAutosell afterMs resumeMs =>
          simp only [handleCommand, keeps_bind, keeps_update]
          refine ⟨.pause hq rfl, fun a t _ => ?_⟩
          cases a with
          | ok => exact ⟨rfl, by simp, fun _ hn => absurd hn not_controlRefused_ok⟩
          | error e => exact ⟨hwarn _ t, by simp, fun _ _ => rfl⟩
      | checkCrouch =>
          refine .message hq ⟨rfl, rfl⟩ ?_
          simp only [steady, SessionVars.on, Behaviors.pinned_checkSneak]
      | chat text | cleanSpawner | readSellMultipliers =>
          refine .message hq ⟨rfl, rfl⟩ ?_
          simp only [steady, SessionVars.on, Behaviors.pinned_enqueue]

theorem spawned_control (s : SessionVars) :
    spawned.Keeps (control .spawned) (controlEnd .spawned) ⟨s, none⟩ s := by
  simp only [spawned, keeps_bind, keeps_read, keeps_when]
  split
  · simp only [spawnedBody, keeps_bind, keeps_update, keeps_orCatch, Behaviors.spawned,
      behaving_bind]
    refine keeps_behaving_await (.held s.behaviors.cfg) (.spawned rfl) fun a t _ => ?_
    cases a with
    | error e => exact ⟨rfl, by simp, by simp⟩
    | ok =>
        refine keeps_of_within (behaving_steady Behaviors.requestReturn_pins) rfl
          not_controlRefused_ok fun s₀ a r t ha ht => ?_
        cases r with
        | ok => exact ⟨ht, by simp, by simp⟩
        | error e => exact ⟨ht, by simp, by simp⟩
  · exact .ended (by simp) (by simp) rfl

theorem aside_control {c : SessionCall} (hc : NotControl c) (s : SessionVars) :
    (do let _ ← await c; pure .finished : Code Ending).Keeps (control .aside) (controlEnd .aside)
      ⟨s, none⟩ s := by
  simp only [keeps_bind]
  refine keeps_perform.mpr ⟨.aside hc rfl, fun a t _ => ?_⟩
  cases a with
  | ok => exact ⟨rfl, by simp, by simp⟩
  | error e => exact ⟨rfl, by simp, by simp⟩

/-! ### What the gateway promises -/

abbrev GateStart := Start Gateway Rpc Rpc.Reply Failure

/-- What the gateway remembers at the end of a segment: it learns from answers only. -/
def learn (start : GateStart) : HeldKeys :=
  match start.answer with
  | some ⟨rpc, .ok _⟩ => start.state.keys.after rpc
  | _ => start.state.keys

/-- In `held`, the keys written before a remote call are as desired. -/
def Stage (d : HeldKeys) (rpc : Rpc) (k : HeldKeys) : Prop :=
  match rpc with
  | .updateBotConfigEntry (.crouchEnabled _) => k.button = d.button
  | .updateBotConfigEntry (.nativeAutoSell _) => k.button = d.button ∧ k.crouch = d.crouch
  | .updateBotConfigEntry (.sellLeaseUntil _) => k = d
  | _ => True

/-- The remote calls a method of the gateway makes, given the window of a pause. -/
def Writes (w : ℤ × ℤ) (start : GateStart) (rpc : Rpc) (k : HeldKeys) : SessionCall → Prop
  | .game (.held cfg) =>
      start.refused = false ∧ cfg.keys.after rpc = cfg.keys ∧ rpc.isPause = false ∧
        Stage cfg.keys rpc k
  | .nativeSellPause .. =>
      (start.answer = none ∧ rpc = .updateBotConfigEntry (.sellPauseFrom w.1)) ∨
        (start.asked = some (.updateBotConfigEntry (.sellPauseFrom w.1)) ∧ start.accepted ∧
          rpc = .updateBotConfigEntry (.sellPauseUntil w.2))
  | _ => rpc.key = none ∧ rpc.isPause = false

def gateControl (w : ℤ × ℤ) (c : SessionCall) : Contract Gateway Rpc Rpc.Reply Failure where
  call start rpc g := g.keys = learn start ∧ g.now = start.state.now ∧ Writes w start rpc g.keys c
  back rpc _ g := ∀ cfg, c = .game (.held cfg) → Stage cfg.keys rpc g.keys

/-- A method that returns has written what it is for, and one that throws was refused a write. -/
def Done (w : ℤ × ℤ) (start : GateStart) (ok : Bool) (k : HeldKeys) : SessionCall → Prop
  | .game (.held cfg) => if ok then start.refused = false ∧ k = cfg.keys else start.refused
  | .nativeSellPause .. =>
      if ok then start.asked = some (.updateBotConfigEntry (.sellPauseUntil w.2)) ∧ start.accepted
      else start.refused
  | _ => True

def gateEnd (w : ℤ × ℤ) (c : SessionCall) (start : GateStart) (r : Except Failure c.Reply)
    (g : Gateway) : Prop :=
  g.keys = learn start ∧ g.now = start.state.now ∧ Done w start r.isOk g.keys c

/-- No write was refused so far. -/
structure Known (start : GateStart) (g : Gateway) : Prop where
  keys : g.keys = learn start
  now : g.now = start.state.now
  unrefused : start.refused = false

/-- One write of `held`, which leads to `P`. -/
theorem keeps_writeHeld {cfg : BehaviorConfig} {w : ℤ × ℤ} {start : GateStart} {g : Gateway}
    {Q : GateStart → Except Failure Unit → Gateway → Prop} {P : Gateway → Prop}
    {changed : Gateway → Bool} {entry : Setting} {store : Gateway → Gateway}
    (hg : Known start g) (hd : cfg.keys.set entry = cfg.keys)
    (hpause : (Rpc.updateBotConfigEntry entry).isPause = false)
    (hstage : Stage cfg.keys (.updateBotConfigEntry entry) g.keys)
    (hstore : ∀ g, (store g).keys = g.keys.set entry ∧ (store g).now = g.now)
    (hsame : changed g = false → P g)
    (hwrite : ∀ g', Stage cfg.keys (.updateBotConfigEntry entry) g'.keys → P (store g'))
    (hok : ∀ start g, Known start g → P g → Q start (.ok ()) g)
    (herror : ∀ rpc e g', Q ⟨g', some ⟨rpc, .error e⟩⟩ (.error e) g') :
    (Gateway.writeChanged changed entry store).Keeps (gateControl w (.game (.held cfg))) Q start g := by
  simp only [Gateway.writeChanged, keeps_bind, keeps_read, keeps_when]
  cases hc : changed g with
  | false => exact hok start g hg (hsame hc)
  | true =>
      refine keeps_perform.mpr ⟨⟨hg.keys, hg.now, hg.unrefused, hd, hpause, hstage⟩, fun a g' hb => ?_⟩
      cases a with
      | ok => exact hok _ _ ⟨(hstore g').1, (hstore g').2, rfl⟩ (hwrite g' (hb cfg rfl))
      | error e => exact herror _ e g'

/-- `held` writes button, crouch and the sell configuration in this order, and renews the
lease once they are written. -/
theorem held_control (cfg : BehaviorConfig) (w : ℤ × ℤ) (g : Gateway) :
    (Gateway.held cfg).Keeps (gateControl w (.game (.held cfg)))
      (gateEnd w (.game (.held cfg))) ⟨g, none⟩ g := by
  have herror (rpc : Rpc) (e : Failure) (g' : Gateway) :
      gateEnd w (.game (.held cfg)) ⟨g', some ⟨rpc, .error e⟩⟩ (.error e) g' := ⟨rfl, rfl, rfl⟩
  simp only [Gateway.held, keeps_bind, keeps_update, keeps_read, keeps_when]
  refine keeps_writeHeld (P := fun g => g.heldButton = cfg.button) ⟨rfl, rfl, rfl⟩ rfl rfl trivial
    (fun _ => ⟨rfl, rfl⟩) ?_ (fun _ _ => rfl) ?_ herror
  · intro h
    exact (not_not.mp (of_decide_eq_false h)).symm
  intro start g hg hbutton
  refine keeps_writeHeld (P := fun g => g.heldButton = cfg.button ∧ g.heldCrouch = cfg.crouch) hg rfl
    rfl hbutton (fun _ => ⟨rfl, rfl⟩) ?_ (fun _ hb => ⟨hb, rfl⟩) ?_ herror
  · intro h
    exact ⟨hbutton, (not_not.mp (of_decide_eq_false h)).symm⟩
  intro start g hg hcrouch
  refine keeps_writeHeld (P := fun g => g.keys = cfg.keys) ⟨hg.keys, hg.now, hg.unrefused⟩ rfl rfl
    hcrouch (fun _ => ⟨rfl, rfl⟩) ?_ (fun _ hb => HeldKeys.ext hb.1 hb.2 rfl) ?_ herror
  · intro h
    exact HeldKeys.ext hcrouch.1 hcrouch.2 ((not_not.mp (of_decide_eq_false h)).symm)
  intro start g hg hkeys
  dsimp only
  split
  · simp only [Gateway.renewSellLease, keeps_bind, keeps_read]
    refine keeps_perform.mpr ⟨⟨hg.keys, hg.now, hg.unrefused, rfl, rfl, hkeys⟩, fun a g' hb => ?_⟩
    cases a with
    | ok => exact ⟨rfl, rfl, rfl, hb cfg rfl⟩
    | error e => exact herror _ e g'
  · exact ⟨hg.keys, hg.now, hg.unrefused, hkeys⟩

theorem nativeSellPause_control {w : ℤ × ℤ} (afterMs resumeMs : ℤ) (g : Gateway)
    (hw : Gateway.pauseWindow g.now afterMs resumeMs = w) :
    (Gateway.nativeSellPause afterMs resumeMs).Keeps
      (gateControl w (.nativeSellPause afterMs resumeMs))
      (gateEnd w (.nativeSellPause afterMs resumeMs)) ⟨g, none⟩ g := by
  simp only [Gateway.nativeSellPause, keeps_bind, keeps_read, hw]
  refine keeps_perform.mpr ⟨⟨rfl, rfl, .inl ⟨rfl, rfl⟩⟩, fun a g' _ => ?_⟩
  cases a with
  | error e => exact ⟨rfl, rfl, rfl⟩
  | ok =>
      refine keeps_perform.mpr ⟨⟨rfl, rfl, .inr ⟨rfl, rfl, rfl⟩⟩, fun a g' _ => ?_⟩
      cases a with
      | error e => exact ⟨rfl, rfl, rfl⟩
      | ok => exact ⟨rfl, rfl, rfl, rfl⟩

/-- Neither a held key nor a pause. -/
def Unkept (rpc : Rpc) : Prop := rpc.key = none ∧ rpc.isPause = false

theorem Unkept.of_plain {rpc : Rpc} (h : rpc.Plain) : Unkept rpc := by
  cases rpc with
  | updateBotConfigEntry e => cases e <;> first | exact ⟨rfl, rfl⟩ | exact h.elim
  | _ => exact ⟨rfl, rfl⟩

theorem recoveringHome_unkept (pending : Bool) :
    (Gateway.recoveringHome pending).Within (fun g => (g.keys, g.now)) Unkept :=
  .bind within_read fun _ => .when _ <|
    .bind (within_perform.mpr ⟨rfl, rfl⟩) fun _ => within_update.mpr fun _ => rfl

/-- A method that neither carries out a control message nor learns of its settings. -/
theorem keeps_of_unkept {c : SessionCall} (hc : NotControl c) {t : Gateway.Code c.Reply}
    (ht : t.Within (fun g => (g.keys, g.now)) Unkept) (w : ℤ × ℤ) (g : Gateway) :
    t.Keeps (gateControl w c) (gateEnd w c) ⟨g, none⟩ g := by
  have hwrites (start : GateStart) (rpc : Rpc) (k : HeldKeys) (h : Unkept rpc) :
      Writes w start rpc k c := by
    cases c with
    | game c => cases c <;> first | exact hc.elim | exact h
    | nativeSellPause => exact hc.elim
    | _ => exact h
  have hdone (start : GateStart) (ok : Bool) (k : HeldKeys) : Done w start ok k c := by
    cases c with
    | game c => cases c <;> first | exact hc.elim | trivial
    | nativeSellPause => exact hc.elim
    | _ => trivial
  have hlearn (g₀ : Gateway) {rpc : Rpc} (a : Except Failure rpc.Reply) (h : Unkept rpc) :
      learn ⟨g₀, some ⟨rpc, a⟩⟩ = g₀.keys := by
    cases a with
    | ok => exact HeldKeys.after_of_key_none _ h.1
    | error e => rfl
  refine ht.keeps ?_ ?_ ?_ ?_
  · intro rpc g' h hg
    exact ⟨congrArg (·.1) hg, congrArg (·.2) hg, hwrites _ _ _ h⟩
  · intro r g' hg
    exact ⟨congrArg (·.1) hg, congrArg (·.2) hg, hdone _ _ _⟩
  · intro g₀ rpc₀ a rpc g' h₀ h hg
    exact ⟨(congrArg (·.1) hg).trans (hlearn g₀ a h₀).symm, congrArg (·.2) hg, hwrites _ _ _ h⟩
  · intro g₀ rpc₀ a r g' h₀ hg
    exact ⟨(congrArg (·.1) hg).trans (hlearn g₀ a h₀).symm, congrArg (·.2) hg, hdone _ _ _⟩

theorem ofCall_control (c : SessionCall) (g : Gateway) {w : ℤ × ℤ}
    (hw : ∀ afterMs resumeMs, c = .nativeSellPause afterMs resumeMs →
      Gateway.pauseWindow g.now afterMs resumeMs = w) :
    (Gateway.ofCall c).Keeps (gateControl w c) (gateEnd w c) ⟨g, none⟩ g := by
  have hplain {c : SessionCall} (hc : NotControl c) (h : c.Plain) :
      (Gateway.ofCall c).Keeps (gateControl w c) (gateEnd w c) ⟨g, none⟩ g := by
    refine keeps_of_unkept hc ((Gateway.ofCall_aloof h).mono (fun g g' hg => ?_) fun _ => .of_plain) w g
    exact congrArg (fun v : Gateway.Caches => (v.keys, v.now)) hg
  cases c with
  | nativeSellPause afterMs resumeMs => exact nativeSellPause_control _ _ g (hw _ _ rfl)
  | renewSellLease | respawn => exact hplain trivial trivial
  | game c =>
      cases c with
      | held cfg => exact held_control cfg w g
      | recoveringHome pending => 
          exact keeps_of_unkept (c := .game (.recoveringHome pending)) trivial
            (recoveringHome_unkept pending) w g
      | _ => exact hplain trivial trivial

end AfkClient.Session

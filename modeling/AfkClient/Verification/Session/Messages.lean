import AfkClient.Verification.Session.Ledger

/-! Control messages are not lost, as long as no write for one fails, no answer to a write
is lost, and no configuration is taken while another one is being written. -/

namespace AfkClient.Session

open AfkClient.Task Ledger

/-- The accounts are balanced, wherever the session stands. -/
def Accounted (s : Session) : Prop :=
  match s.current with
  | none => (s.ledger s.gateway.keys).Balanced none
  | some .again =>
      (s.ledger s.gateway.keys).Balanced (some (.scheduler, none)) ∧ (s.ledger s.gateway.keys).Clean
  | some (.calling c) =>
      (s.ledger s.gateway.keys).Balanced (some (c.job, some c.call)) ∧
        Aim (Behaviors.pinned s.vars.behaviors) c ∧
        (∀ afterMs resumeMs, c.call = .nativeSellPause afterMs resumeMs →
          Gateway.pauseWindow s.gateway.now afterMs resumeMs =
            (Behaviors.pinned s.vars.behaviors).window) ∧
        (c.job = .scheduler → (s.ledger s.gateway.keys).Clean)

/-- The held keys a message asks for. -/
def keysOf : SessionCommand → Option HeldKeys
  | .configure cfg => some cfg.keys
  | _ => none

/-- The next message is no configuration other than those being written. -/
def Serial (s : Session) : Prop :=
  ∀ f ∈ s.inFlight, ∀ d ∈ f.call.heldKeys, ∀ m ∈ s.vars.queued.head?, ∀ d' ∈ keysOf m, d = d'

instance (s : Session) : Decidable s.Serial := by
  unfold Serial
  infer_instance

/-! ### Session code -/

theorem finish_accounted {s : Session} {job : Job} {r : Except Failure Ending}
    (h : (s.ledger s.gateway.keys).Balanced (some (job, none)))
    (hagain : r = .ok .again → job = .scheduler)
    (hclean : job = .scheduler → r = .ok .failed ∨ (s.ledger s.gateway.keys).Clean) :
    Accounted (s.finish job r) := by
  by_cases hr : r = .ok .again
  · subst hr
    obtain rfl := hagain rfl
    exact ⟨h, (hclean rfl).resolve_left (by simp)⟩
  · have hends := h.ends (p := decide (job = .scheduler) && decide (r = .ok .finished)) fun hp => by
      simp only [Bool.and_eq_true, decide_eq_true_eq] at hp
      obtain ⟨hjob, rfl⟩ := hp
      exact ⟨hjob, (hclean hjob).resolve_left (by simp)⟩
    unfold finish
    split
    · exact absurd rfl hr
    · exact hends

theorem heldKeys_of_notControl {c : SessionCall} (h : NotControl c) : c.heldKeys = none := by
  cases c with
  | game c => cases c <;> first | rfl | exact h.elim
  | _ => rfl

theorem pauses_of_notControl {c : SessionCall} (h : NotControl c) : c.pauses = false := by
  cases c <;> first | rfl | exact h.elim

/-- A call that takes no message is entered. -/
theorem calling_accounted {s : Session} {job : Job} {c : SessionCall}
    {next : Except Failure c.Reply → Code Ending} {vars : SessionVars}
    (h : (s.ledger s.gateway.keys).Balanced (some (job, none)))
    (hclean : job = .scheduler → (s.ledger s.gateway.keys).Clean) (hv : steady vars = steady s.vars)
    (hnext : ∀ a v, (next a).Keeps (control job) (controlEnd job) ⟨v, some ⟨c, a⟩⟩ v)
    (hheld : ∀ d ∈ c.heldKeys, d = s.vars.behaviors.cfg.keys) (hpause : c.pauses = false) :
    Accounted { s with vars := vars, current := some (.calling ⟨job, c, next⟩) } := by
  have hpinned : Behaviors.pinned vars.behaviors = Behaviors.pinned s.vars.behaviors :=
    congrArg (·.pinned) hv
  refine ⟨?_, ⟨hnext, fun d hd => ?_, fun hp => ?_⟩, fun a r hc => ?_, hclean⟩
  · change Balanced { s.ledger s.gateway.keys with steady := steady vars } _
    rw [hv]
    exact h.enters c
  · rw [hpinned]
    exact hheld d hd
  · simp [hpause] at hp
  · obtain rfl : c = _ := hc
    simp [SessionCall.pauses] at hpause

/-- A task runs up to its first call. -/
theorem settle_accounted {s : Session} {job : Job} {t : Code Ending}
    (ht : t.Keeps (control job) (controlEnd job) ⟨s.vars, none⟩ s.vars)
    (h : (s.ledger s.gateway.keys).Balanced (some (job, none)))
    (hclean : job = .scheduler → (s.ledger s.gateway.keys).Clean) (hserial : job = .scheduler → s.Serial) :
    Accounted (s.settle job t) := by
  obtain ⟨c, next, vars, hs, hcall, hnext⟩ | ⟨r, vars, hs, hend⟩ := settle_cases s job ht
  · rw [hs]
    have hcall : FirstCall job s.vars c vars := hcall
    have hpromised (a : Except Failure c.Reply) (s' : SessionVars) := hnext a s' trivial
    cases hcall with
    | @configure _ _ cfg rest hq hv =>
        have htakes := h.takes_configure hq fun f hf d hd =>
          hserial rfl f hf d hd _ (by rw [hq]; rfl) _ rfl
        have hcfg : (Behaviors.pinned vars.behaviors).cfg = cfg := congrArg (·.pinned.cfg) hv
        refine ⟨?_, ⟨hpromised, fun d hd => ?_, nofun⟩, nofun, fun _ => hclean rfl⟩
        · change Balanced { s.ledger s.gateway.keys with steady := steady vars } _
          rwa [hv]
        · rw [hcfg]
          exact (Option.mem_some.mp hd).symm
    | @pause _ _ afterMs resumeMs rest hq hv =>
        have hwindow : (Behaviors.pinned (s.vars.behaviors.pause afterMs resumeMs)).window =
            Gateway.pauseWindow s.vars.behaviors.now afterMs resumeMs := by
          unfold Behaviors.pause Gateway.pauseWindow
          split <;> rfl
        have hrest : (Behaviors.pinned (s.vars.behaviors.pause afterMs resumeMs)).cfg =
              s.vars.behaviors.cfg ∧
            (Behaviors.pinned (s.vars.behaviors.pause afterMs resumeMs)).now =
              s.vars.behaviors.now := by
          unfold Behaviors.pause
          split <;> exact ⟨rfl, rfl⟩
        have htakes := h.takes_pause hq hrest.1 hrest.2 (by rw [hwindow, hrest.2])
        have hpinned : Behaviors.pinned vars.behaviors =
            Behaviors.pinned (s.vars.behaviors.pause afterMs resumeMs) := congrArg (·.pinned) hv
        refine ⟨?_, ⟨hpromised, nofun, fun _ => rfl⟩, fun a r hc => ?_, fun _ => hclean rfl⟩
        · change Balanced { s.ledger s.gateway.keys with steady := steady vars } _
          rwa [hv]
        · obtain ⟨rfl, rfl⟩ : a = afterMs ∧ r = resumeMs := by simpa [eq_comm] using hc
          rw [hpinned, hwindow]
          exact congrArg (Gateway.pauseWindow · a r) h.clock
    | tick hq hc hv =>
        exact calling_accounted h hclean hv hpromised (by simp [heldKeys_of_notControl hc])
          (pauses_of_notControl hc)
    | spawned hv =>
        exact calling_accounted h hclean hv hpromised (fun d hd => (Option.mem_some.mp hd).symm) rfl
    | aside hc hv =>
        exact calling_accounted h hclean hv hpromised (by simp [heldKeys_of_notControl hc])
          (pauses_of_notControl hc)
  · rw [hs]
    have hend : FirstEnd job s.vars r vars := hend
    cases hend with
    | @message _ _ m rest hq hm hv =>
        have htakes := h.takes_other hq hm
        refine finish_accounted ?_ (fun _ => rfl) fun _ => .inr (hclean rfl)
        change Balanced { s.ledger s.gateway.keys with steady := steady vars } _
        rwa [hv]
    | ended hq hr hv =>
        refine finish_accounted ?_ (fun ha => absurd ha hr) fun hjob => .inr (hclean hjob)
        change Balanced { s.ledger s.gateway.keys with steady := steady vars } _
        rwa [hv]

/-- A task goes on behind a call. -/
theorem settle_accounted_later {s : Session} {c : Calling} {a : Except Failure c.call.Reply}
    (haim : Aim (Behaviors.pinned s.vars.behaviors) c)
    (h : (s.ledger s.gateway.keys).Balanced (some (c.job, none)))
    (hclean : c.job = .scheduler → ControlRefused ⟨s.vars, some ⟨c.call, a⟩⟩ ∨
      (s.ledger s.gateway.keys).Clean) :
    Accounted (s.settle c.job (c.next a)) := by
  obtain ⟨c', next, vars, hs, hcall, hnext⟩ | ⟨r, vars, hs, hend⟩ :=
    settle_cases s c.job (haim.promised a s.vars)
  · obtain ⟨hc, hrefused, hv⟩ := hcall
    rw [hs]
    exact calling_accounted h (fun hjob => (hclean hjob).resolve_left hrefused) hv
      (fun a s' => hnext a s' trivial) (by simp [heldKeys_of_notControl hc]) (pauses_of_notControl hc)
  · obtain ⟨hv, hagain, hfailed⟩ := hend
    rw [hs]
    refine finish_accounted ?_ hagain fun hjob => (hclean hjob).imp_left (hfailed hjob)
    change Balanced { s.ledger s.gateway.keys with steady := steady vars } _
    rw [hv]
    exact h

/-! ### Gateway code -/

/-- A method of the gateway about to go on, behind the answer its segment starts with. -/
structure Entering (s : Session) (c : Calling) (w : ℤ × ℤ) (start : GateStart) : Prop where
  here : start.state = s.gateway
  balanced : (s.ledger (learn start)).Balanced (some (c.job, some c.call))
  aim : Aim (Behaviors.pinned s.vars.behaviors) c
  window : c.call.pauses → w = (Behaviors.pinned s.vars.behaviors).window
  clean : start.refused = false ∨ NotControl c.call → c.job = .scheduler →
    (s.ledger (learn start)).Clean
  refusedHeld : start.refused → c.job = .scheduler → c.call.heldKeys.isSome →
    learn start = s.vars.behaviors.cfg.keys ∨ s.configureFailed ∨ s.vars.queued.any isConfigure
  refusedPause : start.refused → c.job = .scheduler → c.call.pauses →
    s.pauseFailed ∨ s.vars.queued.any isPause
  begun : start.asked = some (.updateBotConfigEntry (.sellPauseFrom w.1)) → start.accepted →
    s.settings.sellPauseFrom = w.1
  written : start.asked = some (.updateBotConfigEntry (.sellPauseUntil w.2)) → start.accepted →
    s.settings.window = w

theorem vars_noteReturn (s : Session) (c : SessionCall) (r : Except Failure c.Reply) :
    (s.noteReturn c r).vars = s.vars := by
  unfold noteReturn
  split <;> rfl

theorem ledger_noteReturn (s : Session) (g : Gateway) (c : SessionCall) (r : Except Failure c.Reply) :
    ledger ({ s with gateway := g }.noteReturn c r) ({ s with gateway := g }.noteReturn c r).gateway.keys =
      { (s.noteReturn c r).ledger g.keys with now := g.now } := by
  unfold noteReturn
  split <;> rfl

theorem now_noteReturn (s : Session) (c : SessionCall) (r : Except Failure c.Reply) (k : HeldKeys) :
    ((s.noteReturn c r).ledger k).now = s.gateway.now := by
  unfold noteReturn
  split <;> rfl

/-- What a method of the gateway leaves behind when it returns. -/
theorem Entering.returns {s : Session} {c : Calling} {w : ℤ × ℤ} {start : GateStart}
    (h : s.Entering c w start) {r : Except Failure c.call.Reply}
    (hdone : Done w start r.isOk (learn start) c.call) :
    ((s.noteReturn c.call r).ledger (learn start)).Balanced (some (c.job, none)) := by
  obtain ⟨job, call, next⟩ := c
  have hplain (hc : NotControl call) (hnote : s.noteReturn call r = s) :
      ((s.noteReturn call r).ledger (learn start)).Balanced (some (job, none)) := by
    rw [hnote]
    exact h.balanced.returns (by simp [heldKeys_of_notControl hc]) (by simp [pauses_of_notControl hc])
  cases call with
  | nativeSellPause afterMs resumeMs =>
      refine h.balanced.returns nofun fun hjob hpause => ?_
      cases r with
      | ok => exact .inl ((h.written hdone.1 hdone.2).trans (h.window rfl))
      | error e => exact .inr (h.refusedPause hdone hjob rfl)
  | game c =>
      cases c with
      | held cfg =>
          cases r with
          | ok =>
              have hk : learn start = s.vars.behaviors.cfg.keys := hdone.2.trans (h.aim.held _ rfl)
              exact (h.balanced.returns (fun _ _ => .inl hk) nofun).catches_up hk
          | error e => exact h.balanced.returns (fun hjob _ => h.refusedHeld hdone hjob rfl) nofun
      | _ => exact hplain trivial rfl
  | _ => exact hplain trivial rfl

/-- A refused method of a control message throws. -/
theorem Entering.clean_or_refused {s : Session} {c : Calling} {w : ℤ × ℤ} {start : GateStart}
    (h : s.Entering c w start) {r : Except Failure c.call.Reply}
    (hdone : Done w start r.isOk (learn start) c.call) (v : SessionVars) (hjob : c.job = .scheduler) :
    ControlRefused ⟨v, some ⟨c.call, r⟩⟩ ∨
      ((s.noteReturn c.call r).ledger (learn start)).Clean := by
  obtain ⟨job, call, next⟩ := c
  have hplain (hc : NotControl call) (hnote : s.noteReturn call r = s) :
      ((s.noteReturn call r).ledger (learn start)).Clean := by
    rw [hnote]
    exact h.clean (.inr hc) hjob
  cases call with
  | nativeSellPause afterMs resumeMs =>
      cases r with
      | ok =>
          exact .inr (h.clean (.inl (Start.refused_of_accepted hdone.2)) hjob)
      | error e => exact .inl ⟨rfl, _, rfl, nofun⟩
  | game c =>
      cases c with
      | held cfg =>
          cases r with
          | ok => exact .inr ⟨rfl, (h.clean (.inl hdone.1) hjob).2⟩
          | error e => exact .inl ⟨rfl, _, rfl, nofun⟩
      | _ => exact .inr (hplain trivial rfl)
  | _ => exact .inr (hplain trivial rfl)

/-- The remote call a method makes. -/
theorem Entering.sends {s : Session} {c : Calling} {w : ℤ × ℤ} {start : GateStart}
    (h : s.Entering c w start) {rpc : Rpc} (hwrites : Writes w start rpc (learn start) c.call) :
    Sent w (learn start) s.settings rpc c.call ∧ (c.job = .scheduler → (s.ledger (learn start)).Clean) := by
  obtain ⟨job, call, next⟩ := c
  cases call with
  | nativeSellPause afterMs resumeMs =>
      obtain ⟨hnone, hrpc⟩ | ⟨hasked, haccepted, hrpc⟩ := hwrites
      · exact ⟨.inl hrpc, h.clean (.inl (by simp [Start.refused, hnone]))⟩
      · exact ⟨.inr ⟨hrpc, h.begun hasked haccepted⟩,
          h.clean (.inl (Start.refused_of_accepted haccepted))⟩
  | game c =>
      cases c with
      | held cfg => exact ⟨hwrites.2, h.clean (.inl hwrites.1)⟩
      | _ => exact ⟨hwrites, h.clean (.inr trivial)⟩
  | _ => exact ⟨hwrites, h.clean (.inr trivial)⟩

theorem enter_accounted {s : Session} {c : Calling} {w : ℤ × ℤ} {a : GateStart}
    {t : Gateway.Code c.call.Reply} (h : s.Entering c w a)
    (ht : t.Keeps (gateControl w c.call) (gateEnd w c.call) a s.gateway) :
    Accounted (s.enter c t) := by
  obtain ⟨rpc, resume, g, hs, ⟨hk, hn, hwrites⟩, hresume⟩ | ⟨r, g, hs, hk, hn, hdone⟩ :=
    enter_cases s c ht
  · rw [hs]
    rw [hk] at hwrites
    obtain ⟨hsent, hclean⟩ := h.sends hwrites
    have hsends := h.balanced.sends (f := { c with rpc := rpc, resume := resume })
      ⟨h.aim, ⟨w, h.window, hsent, hresume⟩, nofun, nofun⟩ hclean
    change Balanced { s.ledger (learn a) with
      keys := g.keys, now := g.now, inFlight := { c with rpc := rpc, resume := resume } :: s.inFlight } none
    rw [hk, hn, h.here]
    exact hsends
  · rw [hs]
    rw [hk] at hdone
    have hledger : ledger ({ s with gateway := g }.noteReturn c.call r)
        ({ s with gateway := g }.noteReturn c.call r).gateway.keys =
          (s.noteReturn c.call r).ledger (learn a) := by
      rw [ledger_noteReturn, hk, hn, h.here, ← now_noteReturn s c.call r (learn a)]
    refine settle_accounted_later (by rw [vars_noteReturn]; exact h.aim) ?_ fun hjob => ?_
    · rw [hledger]
      exact h.returns hdone
    · rw [hledger]
      exact h.clean_or_refused hdone _ hjob

/-! ### Steps -/

theorem Accounted.balanced {s : Session} (h : Accounted s) (hs : s.current = none) :
    (s.ledger s.gateway.keys).Balanced none := by
  unfold Accounted at h
  rwa [hs] at h

theorem accounted_of_balanced {s : Session} (h : (s.ledger s.gateway.keys).Balanced none)
    (hs : s.current = none) : Accounted s := by
  unfold Accounted
  rwa [hs]

/-- The scheduler is about to take the next message. -/
def taking (s : Session) : Bool :=
  match s.current with
  | some .again => true
  | _ => false

theorem proceed_accounted {s : Session} (h : Accounted s) (hserial : s.taking → s.Serial) :
    Accounted s.proceed := by
  unfold proceed
  cases hs : s.current with
  | none => exact h
  | some current =>
      simp only [Accounted, hs] at h
      cases current with
      | again =>
          exact settle_accounted (schedulerRound_control _) h.1 (fun _ => h.2) fun _ =>
            hserial (by simp [taking, hs])
      | calling c =>
          obtain ⟨hbalanced, haim, hwindow, hclean⟩ := h
          exact enter_accounted (a := ⟨s.gateway, none⟩)
            (w := (Behaviors.pinned s.vars.behaviors).window)
            ⟨rfl, hbalanced, haim, fun _ => rfl, fun _ => hclean, nofun, nofun, nofun, nofun⟩
            (ofCall_control c.call s.gateway hwindow)

theorem receive_accounted {s : Session} (h : (s.ledger s.gateway.keys).Balanced none)
    (hs : s.current = none) (m : SessionCommand) : Accounted (s.receive m) := by
  refine accounted_of_balanced (h.receives m ?_) ?_
  · cases m <;> simp [receive, ledger, steady, isConfigure, isPause, latestConfigure, latestPause]
  · cases m <;> exact hs

theorem applyRpc_accounted {s : Session} (h : Accounted s) (hs : s.current = none) (n : ℕ) :
    Accounted (s.applyRpc n) := by
  unfold applyRpc
  cases hf : s.inFlight[n]? with
  | none => exact h
  | some f =>
      obtain ⟨l₁, l₂, hl, -, hset⟩ := exists_split hf
      dsimp only
      split
      · exact h
      · refine accounted_of_balanced ?_ hs
        rw [hset]
        exact (h.balanced hs).applies hl

/-- A part of the variables that no message concerns changes. -/
theorem onVars_accounted {s : Session} (h : (s.ledger s.gateway.keys).Balanced none)
    (hs : s.current = none) {f : SessionVars → SessionVars} (hf : steady (f s.vars) = steady s.vars) :
    Accounted (s.onVars f) := by
  refine accounted_of_balanced ?_ hs
  change Balanced { s.ledger s.gateway.keys with steady := steady (f s.vars) } none
  rw [hf]
  exact h

theorem Sent.stage {w : ℤ × ℤ} {keys : HeldKeys} {settings : NativeSettings} {rpc : Rpc}
    {c : SessionCall} (h : Sent w keys settings rpc c) {a : Except Failure rpc.Reply} {g : Gateway}
    (hk : g.keys = keys) : (gateControl w c).back rpc a g := by
  rintro cfg rfl
  rw [hk]
  exact h.2.2

theorem Sent.from_of_until {w : ℤ × ℤ} {keys : HeldKeys} {settings : NativeSettings} {rpc : Rpc}
    {c : SessionCall} (h : Sent w keys settings rpc c) {value : ℤ}
    (hrpc : rpc = .updateBotConfigEntry (.sellPauseUntil value)) : settings.sellPauseFrom = w.1 := by
  subst hrpc
  have hc := h.pauses_of_isPause rfl
  cases c with
  | nativeSellPause =>
      obtain hr | ⟨-, hfrom⟩ := h
      · simp at hr
      · exact hfrom
  | _ => simp [SessionCall.pauses] at hc

theorem Sent.keys_of_lease {w : ℤ × ℤ} {keys : HeldKeys} {settings : NativeSettings} {rpc : Rpc}
    {c : SessionCall} (h : Sent w keys settings rpc c) {value : ℤ}
    (hrpc : rpc = .updateBotConfigEntry (.sellLeaseUntil value)) (hc : c.heldKeys.isSome) :
    keys ∈ c.heldKeys := by
  subst hrpc
  cases c with
  | game c =>
      cases c with
      | held cfg =>
          obtain rfl : keys = cfg.keys := h.2.2
          rfl
      | _ => simp [SessionCall.heldKeys] at hc
  | _ => simp [SessionCall.heldKeys] at hc

theorem applyRpc_split {s : Session} {n : ℕ} {f : InFlight} (hf : s.inFlight[n]? = some f) :
    ∃ l₁ l₂, (s.applyRpc n).inFlight = l₁ ++ { f with applied := true } :: l₂ ∧
      (s.applyRpc n).inFlight.eraseIdx n = l₁ ++ l₂ := by
  obtain ⟨l₁, l₂, hl, herase, hset⟩ := exists_split hf
  refine ⟨l₁, l₂, ?_⟩
  simp only [applyRpc, hf]
  split
  · rename_i ha
    obtain ⟨c, rpc, applied, resume⟩ := f
    obtain rfl : applied = true := ha
    exact ⟨hl, herase⟩
  · exact ⟨hset _, by rw [List.eraseIdx_set_eq, herase]⟩

theorem applyRpc_frame (s : Session) (n : ℕ) : (s.applyRpc n).vars = s.vars ∧
    (s.applyRpc n).gateway = s.gateway ∧ (s.applyRpc n).current = s.current := by
  unfold applyRpc
  split
  · split <;> exact ⟨rfl, rfl, rfl⟩
  · exact ⟨rfl, rfl, rfl⟩

/-- An answer with a value. -/
theorem reply_ok_accounted {s : Session} (h : Accounted s) (hs : s.current = none) {n : ℕ}
    {f : InFlight} (hf : s.inFlight[n]? = some f) (value : f.rpc.Reply) :
    Accounted ({ s.applyRpc n with inFlight := (s.applyRpc n).inFlight.eraseIdx n }.enter f.toCalling
      (f.resume (.ok value))) := by
  obtain ⟨l₁, l₂, hl, herase⟩ := applyRpc_split hf
  obtain ⟨hvars, hgateway, hcurrent⟩ := applyRpc_frame s n
  have hbalanced := (applyRpc_accounted h hs n).balanced (hcurrent.trans hs)
  generalize s.applyRpc n = t at hl herase hvars hgateway hbalanced
  rw [herase]
  have hflight := hbalanced.flights { f with applied := true } (by simp [ledger, hl])
  obtain ⟨w, hw, hsent, hkeeps⟩ := hflight.gate
  have hwindow := hflight.wrotePause rfl
  have hanswers := hbalanced.answers (f := { f with applied := true }) hl
    (.inl ⟨rfl, rfl⟩ : _ ∧ _ ∨ _)
  refine enter_accounted (a := ⟨t.gateway, some ⟨f.rpc, .ok value⟩⟩) (w := w)
    ⟨rfl, hanswers, hflight.toAim, hw, fun _ hjob => ?_, nofun, nofun, fun hasked _ => ?_,
      fun hasked _ => ?_⟩ (hkeeps (.ok value) t.gateway (hsent.stage rfl))
  · exact hbalanced.clean ⟨{ f with applied := true }, by simp [ledger, hl], hjob⟩
  · have hrpc : f.rpc = .updateBotConfigEntry (.sellPauseFrom w.1) := Option.some.inj hasked
    simp only [window_apply, hrpc, afterPause] at hwindow
    exact (congrArg Prod.fst (hwindow rfl)).symm
  · have hrpc : f.rpc = .updateBotConfigEntry (.sellPauseUntil w.2) := Option.some.inj hasked
    have hfrom := hsent.from_of_until hrpc
    simp only [window_apply, hrpc, afterPause] at hwindow
    exact Prod.ext hfrom (congrArg Prod.snd (hwindow rfl)).symm

theorem exists_held {c : SessionCall} (h : c.heldKeys.isSome) : ∃ cfg, c = .game (.held cfg) := by
  cases c with
  | game c =>
      cases c with
      | held cfg => exact ⟨cfg, rfl⟩
      | _ => simp [SessionCall.heldKeys] at h
  | _ => simp [SessionCall.heldKeys] at h

theorem exists_pause {c : SessionCall} (h : c.pauses) :
    ∃ afterMs resumeMs, c = .nativeSellPause afterMs resumeMs := by
  cases c with
  | nativeSellPause afterMs resumeMs => exact ⟨afterMs, resumeMs, rfl⟩
  | _ => simp [SessionCall.pauses] at h

/-- What is noted about a failed remote call. -/
theorem noteFailure_spec (s : Session) (f : InFlight) :
    ∃ configureFailed pauseFailed,
      s.noteFailure f =
        { s with configureFailed := configureFailed, pauseFailed := pauseFailed } ∧
      ((s.configureFailed → configureFailed) ∧ (s.pauseFailed → pauseFailed)) ∧
      (f.job ≠ .scheduler ∨ NotControl f.call →
        configureFailed = s.configureFailed ∧ pauseFailed = s.pauseFailed) ∧
      (f.job = .scheduler → f.call.heldKeys.isSome →
        (∃ value, f.rpc = .updateBotConfigEntry (.sellLeaseUntil value)) ∨ configureFailed ∨
          s.vars.queued.any isConfigure) ∧
      (f.job = .scheduler → f.call.pauses → pauseFailed ∨ s.vars.queued.any isPause) := by
  have hfailed (failed queued : Bool) : (failed || !queued) = true ∨ queued = true := by
    cases failed <;> cases queued <;> simp
  unfold noteFailure
  split
  · rename_i value hjob hcall hrpc
    exact ⟨_, _, rfl, ⟨id, id⟩, fun _ => ⟨rfl, rfl⟩, fun _ _ => .inl ⟨_, hrpc⟩, by simp [hcall, SessionCall.pauses]⟩
  · rename_i hjob hcall _
    refine ⟨_, _, rfl, ⟨by simp +contextual, id⟩, ?_, fun _ _ => .inr (hfailed _ _), ?_⟩
    · rintro (h | h)
      · exact absurd hjob h
      · rw [hcall] at h
        exact h.elim
    · simp [hcall, SessionCall.pauses]
  · rename_i _ _ hjob hcall
    refine ⟨_, _, rfl, ⟨id, by simp +contextual⟩, ?_, ?_, fun _ _ => hfailed _ _⟩
    · rintro (h | h)
      · exact absurd hjob h
      · rw [hcall] at h
        exact h.elim
    · simp [hcall, SessionCall.heldKeys]
  · rename_i hheld hpause _
    refine ⟨_, _, rfl, ⟨id, id⟩, fun _ => ⟨rfl, rfl⟩, fun hjob hc => ?_, fun hjob hc => ?_⟩
    · obtain ⟨cfg, hcall⟩ := exists_held hc
      exact (hheld cfg hjob hcall).elim
    · obtain ⟨afterMs, resumeMs, hcall⟩ := exists_pause hc
      exact (hpause afterMs resumeMs hjob hcall).elim

/-- An answer with an error, the call not having been applied if it writes a held key. -/
theorem reply_error_accounted {s : Session} (h : Accounted s) (hs : s.current = none) {n : ℕ}
    {f : InFlight} (hf : s.inFlight[n]? = some f) (error : Failure)
    (hlost : f.rpc.key ≠ none → f.applied = false) :
    Accounted ({ s.noteFailure f with inFlight := (s.noteFailure f).inFlight.eraseIdx n }.enter
      f.toCalling (f.resume (.error error))) := by
  obtain ⟨l₁, l₂, hl, herase, -⟩ := exists_split hf
  have hbalanced := h.balanced hs
  have hflight := hbalanced.flights f (by simp [ledger, hl])
  obtain ⟨w, hw, hsent, hkeeps⟩ := hflight.gate
  have hanswers := hbalanced.answers hl (.inr ⟨rfl, hlost⟩ : _ ∨ _ ∧ _)
  have hclean (hjob : f.job = .scheduler) := hbalanced.clean ⟨f, by simp [ledger, hl], hjob⟩
  obtain ⟨configureFailed, pauseFailed, hnote, ⟨hc, hp⟩, hsame, hheld, hpause⟩ := noteFailure_spec s f
  rw [hnote]
  dsimp only
  rw [herase]
  have hnoted : Balanced { s.ledger s.gateway.keys with
      inFlight := l₁ ++ l₂, configureFailed := configureFailed, pauseFailed := pauseFailed }
      (some (f.job, some f.call)) := by
    by_cases hjob : f.job = .scheduler
    · rw [hjob] at hanswers ⊢
      exact hanswers.notes (hclean hjob).2.2 hc hp
    · obtain ⟨rfl, rfl⟩ := hsame (.inl hjob)
      exact hanswers
  refine enter_accounted (a := ⟨s.gateway, some ⟨f.rpc, .error error⟩⟩) (w := w)
    ⟨rfl, hnoted, hflight.toAim, hw, fun hplain hjob => ?_, fun _ hjob hcall => ?_,
      fun _ => hpause, nofun, nofun⟩ (hkeeps (.error error) s.gateway (hsent.stage rfl))
  · obtain ⟨rfl, rfl⟩ := hsame (.inr (hplain.resolve_left (by simp [Start.refused, Except.isOk, Except.toBool])))
    exact hclean hjob
  · obtain ⟨value, hlease⟩ | hrest := hheld hjob hcall
    · exact .inl (hflight.held _ (hsent.keys_of_lease hlease hcall))
    · exact .inr hrest

/-! ### Runs -/

/-- No defect is reached: a pass begins only if every write of the last messages succeeded, no
answer to a write is lost, and no configuration is taken while another is being written. -/
def Untroubled (s : Session) : Input → Prop
  | .proceed => s.taking → s.Serial
  | .step =>
      s.current.isNone → s.vars.busy = false →
        s.configureFailed = false ∧ s.pauseFailed = false ∧ s.Serial
  | .reply n answers =>
      s.current.isNone → ∀ f ∈ s.inFlight[n]?, (answers f.rpc).isOk = false → f.rpc.key ≠ none →
        f.applied = false
  | _ => True

theorem reply_accounted {s : Session} (h : Accounted s) (hs : s.current = none) {n : ℕ}
    {answers : (r : Rpc) → Except Failure r.Reply} (hlost : s.Untroubled (.reply n answers)) :
    Accounted (s.reply n answers) := by
  unfold reply
  cases hf : s.inFlight[n]? with
  | none => exact h
  | some f =>
      have hlost := hlost (by simp [hs]) f hf
      dsimp only
      cases ha : answers f.rpc with
      | ok value => exact reply_ok_accounted h hs hf value
      | error e =>
          exact reply_error_accounted h hs hf e fun hk => hlost (by simp [ha, Except.isOk, Except.toBool]) hk

theorem steady_onChat (v : SessionVars) (sender : Option String) (message : String) :
    steady (v.on fun b => b.onChat sender message) = steady v := by
  simp only [steady, SessionVars.on, Behaviors.pinned_onChat]

theorem event_accounted {s : Session} (h : Accounted s) (hs : s.current = none) {i : Input}
    (hi : s.Untroubled i) : Accounted (s.event i) := by
  have hbalanced := h.balanced hs
  cases i with
  | proceed => exact h
  | line command => exact receive_accounted hbalanced hs command
  | step =>
      simp only [event]
      split
      · exact h
      · rename_i hbusy
        simp only [Bool.not_eq_true] at hbusy
        obtain ⟨hc, hp, hserial⟩ := hi (by simp [hs]) hbusy
        exact settle_accounted (s := { s with vars := { s.vars with busy := true }, passed := false })
          (schedulerRound_control _) (hbalanced.begins hbusy) (fun _ => ⟨hc, hp, rfl⟩) fun _ => hserial
  | renewSellLease =>
      simp only [event]
      split
      · exact settle_accounted (aside_control (c := .renewSellLease) trivial _)
          (hbalanced.starts (by simp)) nofun nofun
      · exact h
  | spawned => exact settle_accounted (spawned_control _) (hbalanced.starts (by simp)) nofun nofun
  | died =>
      exact settle_accounted
        (s := { s with gateway := { s.gateway with inventory := none } }.onVars fun v =>
          { v.on Behaviors.joining with online := false })
        (aside_control (c := .respawn) trivial _) (hbalanced.starts (by simp)) nofun nofun
  | respawned =>
      exact settle_accounted (s := s.onVars fun v => { v with online := false }) (spawned_control _)
        (hbalanced.starts (by simp)) nofun nofun
  | moved => exact onVars_accounted hbalanced hs rfl
  | chat sender message => exact onVars_accounted hbalanced hs (steady_onChat _ _ _)
  | inventory inventory => exact accounted_of_balanced hbalanced hs
  | apply n => exact applyRpc_accounted h hs n
  | reply n answers => exact reply_accounted h hs hi
  | clock now => exact accounted_of_balanced (hbalanced.clock_set now) hs

theorem step_accounted {s : Session} (h : Accounted s) {i : Input} (hi : s.Untroubled i) :
    Accounted (s.step i) := by
  unfold step
  split
  · exact proceed_accounted h hi
  · split
    · exact h
    · rename_i hs
      exact event_accounted h (by simpa using hs) hi

theorem pinned_pause (b : Behaviors) (afterMs resumeMs : ℤ) :
    (Behaviors.pinned (b.pause afterMs resumeMs)).cfg = b.cfg ∧
      (Behaviors.pinned (b.pause afterMs resumeMs)).now = b.now := by
  unfold Behaviors.pause
  split <;> exact ⟨rfl, rfl⟩

theorem fresh_accounted {b : Behaviors} {g : Gateway} {n : NativeSettings} {cfg : BehaviorConfig}
    (hcfg : b.cfg = cfg) (hnow : g.now = b.now) (hg : g.keys = cfg.keys) (hn : n.keys = cfg.keys) :
    Accounted { vars := { behaviors := b }, gateway := g, settings := n, lastConfigure := cfg } := by
  refine accounted_of_balanced ⟨hnow, Nat.le_refl 0, ?_, fun key => .inl ?_, .inl ?_, hcfg,
    ⟨none, rfl, by simp⟩, ?_, ?_⟩ rfl
  · simp [ledger]
  · change n.keys.Same g.keys key
    rw [hn, hg]
    exact HeldKeys.same_refl _ key
  · change g.keys = b.cfg.keys
    rw [hg, hcfg]
  · simp [ledger]
  · simp [ledger]

theorem init_accounted (c : StartConfig) : Accounted (init c) := by
  obtain ⟨hcfg, hnow⟩ := pinned_pause
    { Behaviors.init c.config sessionGateway c.letterOrNumber with now := c.startedAt }
    c.pauseAfterMs c.pauseResumeMs
  exact fresh_accounted hcfg hnow.symm rfl rfl

/-- Nothing runs and nothing is on its way. -/
def Quiet (s : Session) : Prop := s.current.isNone ∧ s.inFlight = []

/-- Behind a scheduler pass that emptied the queue and reached the end of its tick, the
settings are those of the last messages. -/
def Followed (s : Session) : Prop :=
  s.Quiet → s.vars.queued = [] → s.passed →
    s.settings.autoButton = s.lastConfigure.button ∧
    s.settings.crouchEnabled = s.lastConfigure.crouch ∧
    s.settings.nativeAutoSell = s.lastConfigure.sellConfig ∧
    ∀ p ∈ s.lastPause, ∃ now, (s.settings.sellPauseFrom, s.settings.sellPauseUntil) =
      Gateway.pauseWindow now p.1 p.2

theorem Accounted.followed {s : Session} (h : Accounted s) : s.Followed := by
  rintro ⟨hs, hflight⟩ hq hpassed
  have hbalanced := h.balanced (by simpa using hs)
  obtain ⟨hc, hp⟩ := hbalanced.passed hpassed
  have hdoing {P : SessionCall → Prop} : ¬ (s.ledger s.gateway.keys).Doing none P := by
    rintro (⟨f, hf, -⟩ | ⟨c, hc, -⟩)
    · simp [ledger, hflight] at hf
    · simp at hc
  have hqueued (kind : SessionCommand → Bool) : ¬ (s.ledger s.gateway.keys).steady.queued.any kind := by
    simp [ledger, steady, hq]
  have hlast : s.vars.behaviors.cfg = s.lastConfigure := by
    have hlast := hbalanced.lastConfigure
    simpa [ledger, steady, hq, Behaviors.pinned] using hlast
  have hkeys : s.gateway.keys = s.lastConfigure.keys := by
    rw [← hlast]
    exact hbalanced.configured.resolve_right fun hrest => hrest.elim (by simp_all) fun hrest =>
      hrest.elim (hqueued _) hdoing
  have htruth (key : HeldKey) : s.settings.keys.Same s.lastConfigure.keys key := by
    rw [← hkeys]
    refine (hbalanced.truth key).resolve_right ?_
    rintro ⟨-, f, hf, -⟩
    simp [ledger, hflight] at hf
  refine ⟨htruth .button, htruth .crouch, htruth .sell, fun p hp' => ?_⟩
  obtain ⟨pause, hpause, hx⟩ := hbalanced.paused
  have hpause : pause = s.lastPause := by simpa [ledger, steady, hq] using hpause
  obtain ⟨⟨now, hnow⟩, hwindow⟩ := hx p (hpause ▸ hp')
  refine ⟨now, ?_⟩
  rw [← hnow]
  exact hwindow.resolve_right fun hrest => hrest.elim (by simp_all) fun hrest =>
    hrest.elim (hqueued _) hdoing

/-- Every remote call succeeds. -/
def succeeding : (r : Rpc) → Except Failure r.Reply
  | .sendChat _ => .ok none
  | .clickInventorySlot .. => .ok none
  | .openSpawner _ => .ok true
  | .updateBotConfigEntry _ => .ok ()
  | .closeContainer _ => .ok ()
  | .writePrivateJson _ => .ok ()
  | .respawn => .ok ()

/-- Every remote call fails. -/
def failing (r : Rpc) : Except Failure r.Reply := .error ⟨"UNAVAILABLE", false⟩

instance (s : Session) (i : Input) : Decidable (s.Untroubled i) := by
  cases i <;> unfold Untroubled <;> infer_instance

/-- Crouching on, of a session that begins without it. -/
def crouching : BehaviorConfig := { autoButton := some .left, crouchEnabled := some true }

end AfkClient.Session

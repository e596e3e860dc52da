import AfkClient.Verification.Session.Control

/-! The accounts of a session about control messages: what is queued, desired, written and
on its way. Each move of the session changes them in one place, and keeps them in balance
unless a write of a message fails or two configurations are written at once. -/

namespace AfkClient

open AfkClient.Task

/-- The held keys a call is to write. -/
def SessionCall.heldKeys : SessionCall → Option HeldKeys
  | .game (.held cfg) => some cfg.keys
  | _ => none

def SessionCall.pauses : SessionCall → Bool
  | .nativeSellPause .. => true
  | _ => false

/-- The pause as the behaviors know it. -/
def Behaviors.Pinned.window (v : Behaviors.Pinned) : ℤ × ℤ := (v.pauseStart, v.pauseEnd)

def NativeSettings.window (n : NativeSettings) : ℤ × ℤ := (n.sellPauseFrom, n.sellPauseUntil)

namespace Session

/-- The configuration once a message is taken. -/
def latestConfigure (cfg : BehaviorConfig) : SessionCommand → BehaviorConfig
  | .configure config => config
  | _ => cfg

/-- The pause in force once a message is taken. -/
def latestPause (pause : Option (ℤ × ℤ)) : SessionCommand → Option (ℤ × ℤ)
  | .pauseAutosell afterMs resumeMs => some (afterMs, resumeMs)
  | _ => pause

/-- What a session does about control messages; `keys` are the held keys its gateway has
been told of. -/
structure Ledger where
  steady : Steady
  keys : HeldKeys
  now : ℤ
  settings : NativeSettings
  inFlight : List InFlight
  lastConfigure : BehaviorConfig
  lastPause : Option (ℤ × ℤ)
  configureFailed : Bool
  pauseFailed : Bool
  passed : Bool

def ledger (s : Session) (keys : HeldKeys) : Ledger where
  steady := steady s.vars
  keys := keys
  now := s.gateway.now
  settings := s.settings
  inFlight := s.inFlight
  lastConfigure := s.lastConfigure
  lastPause := s.lastPause
  configureFailed := s.configureFailed
  pauseFailed := s.pauseFailed
  passed := s.passed

/-- The task that runs, and the call it is in. -/
abbrev Active := Option (Job × Option SessionCall)

/-- A task and the call it is in, as the messages require them. -/
structure Aim (v : Behaviors.Pinned) (c : Calling) : Prop where
  promised : ∀ a s, (c.next a).Keeps (control c.job) (controlEnd c.job) ⟨s, some ⟨c.call, a⟩⟩ s
  held : ∀ d ∈ c.call.heldKeys, d = v.cfg.keys
  owner : c.call.pauses → c.job = .scheduler

/-- The window once a remote call is applied. -/
def afterPause (w : ℤ × ℤ) : Rpc → ℤ × ℤ
  | .updateBotConfigEntry (.sellPauseFrom value) => (value, w.2)
  | .updateBotConfigEntry (.sellPauseUntil value) => (w.1, value)
  | _ => w

theorem window_apply (n : NativeSettings) (rpc : Rpc) :
    (rpc.apply n).window = afterPause n.window rpc := by
  cases rpc with
  | updateBotConfigEntry e => cases e <;> rfl
  | _ => rfl

theorem afterPause_of_not_isPause (w : ℤ × ℤ) {rpc : Rpc} (h : rpc.isPause = false) :
    afterPause w rpc = w := by
  cases rpc with
  | updateBotConfigEntry e => cases e <;> first | rfl | simp [Rpc.isPause] at h
  | _ => rfl

theorem afterPause_twice (w : ℤ × ℤ) (rpc : Rpc) :
    afterPause (afterPause w rpc) rpc = afterPause w rpc := by
  cases rpc with
  | updateBotConfigEntry e => cases e <;> rfl
  | _ => rfl

/-- A remote call on its way is one that its gateway method makes. -/
def Sent (w : ℤ × ℤ) (keys : HeldKeys) (settings : NativeSettings) (rpc : Rpc) : SessionCall → Prop
  | .game (.held cfg) =>
      cfg.keys.after rpc = cfg.keys ∧ rpc.isPause = false ∧ Stage cfg.keys rpc keys
  | .nativeSellPause .. =>
      rpc = .updateBotConfigEntry (.sellPauseFrom w.1) ∨
        rpc = .updateBotConfigEntry (.sellPauseUntil w.2) ∧ settings.sellPauseFrom = w.1
  | _ => Unkept rpc

structure Flight (v : Behaviors.Pinned) (keys : HeldKeys) (settings : NativeSettings) (f : InFlight) :
    Prop extends Aim v f.toCalling where
  gate : ∃ w, (f.call.pauses → w = v.window) ∧ Sent w keys settings f.rpc f.call ∧
    ∀ a g, (gateControl w f.call).back f.rpc a g →
      (f.resume a).Keeps (gateControl w f.call) (gateEnd w f.call) ⟨g, some ⟨f.rpc, a⟩⟩ g
  wrote : f.applied → ∀ key, f.rpc.key = some key → settings.keys.Same v.cfg.keys key
  wrotePause : f.applied → f.rpc.isPause → (f.rpc.apply settings).window = settings.window

/-! ### Remote calls on their way -/

section Flights

variable {v : Behaviors.Pinned} {keys : HeldKeys} {settings : NativeSettings} {f : InFlight}

theorem Sent.pauses_of_isPause {w : ℤ × ℤ} {rpc : Rpc} {c : SessionCall}
    (h : Sent w keys settings rpc c) (hp : rpc.isPause = true) : c.pauses = true := by
  cases c with
  | nativeSellPause => rfl
  | game c => cases c <;> simp_all [Sent, Unkept]
  | _ => simp_all [Sent, Unkept]

theorem Sent.held_of_key {w : ℤ × ℤ} {rpc : Rpc} {c : SessionCall}
    (h : Sent w keys settings rpc c) {key : HeldKey} (hk : rpc.key = some key) :
    ∃ d ∈ c.heldKeys, d.after rpc = d := by
  cases c with
  | nativeSellPause =>
      obtain rfl | ⟨rfl, -⟩ := h <;> simp [Rpc.key] at hk
  | game c =>
      cases c with
      | held cfg => exact ⟨cfg.keys, rfl, h.1⟩
      | _ => simp_all [Sent, Unkept]
  | _ => simp_all [Sent, Unkept]

theorem Sent.applied {w : ℤ × ℤ} {rpc : Rpc} {c : SessionCall} (h : Sent w keys settings rpc c) :
    Sent w keys (rpc.apply settings) rpc c := by
  cases c with
  | nativeSellPause =>
      obtain rfl | ⟨rfl, hfrom⟩ := h
      · exact .inl rfl
      · exact .inr ⟨rfl, hfrom⟩
  | game c => cases c <;> exact h
  | _ => exact h

theorem Flight.held_of_key (h : Flight v keys settings f) {key : HeldKey}
    (hk : f.rpc.key = some key) : v.cfg.keys ∈ f.call.heldKeys ∧ v.cfg.keys.after f.rpc = v.cfg.keys := by
  obtain ⟨w, -, hsent, -⟩ := h.gate
  obtain ⟨d, hd, hrpc⟩ := hsent.held_of_key hk
  obtain rfl := h.held d hd
  exact ⟨hd, hrpc⟩

/-- An in-flight call stays as it is while what it depends on does. -/
theorem Flight.change (h : Flight v keys settings f) {v' : Behaviors.Pinned} {keys' : HeldKeys}
    {settings' : NativeSettings} (hheld : ∀ d ∈ f.call.heldKeys, v'.cfg.keys = v.cfg.keys)
    (hpause : f.call.pauses → v'.window = v.window ∧ settings'.window = settings.window)
    (hstage : v.cfg.keys ∈ f.call.heldKeys → Stage v.cfg.keys f.rpc keys → Stage v.cfg.keys f.rpc keys')
    (hwrote : f.applied → ∀ key, f.rpc.key = some key → settings.keys.Same v.cfg.keys key →
      settings'.keys.Same v.cfg.keys key) : Flight v' keys' settings' f where
  promised := h.promised
  held d hd := (h.held d hd).trans (hheld d hd).symm
  owner := h.owner
  gate := by
    obtain ⟨w, hw, hsent, hkeeps⟩ := h.gate
    refine ⟨w, fun hp => (hw hp).trans (hpause hp).1.symm, ?_, hkeeps⟩
    have hheld := h.held
    generalize f.call = c at hsent hpause hstage hheld
    cases c with
    | nativeSellPause =>
        obtain hs | ⟨hs, hfrom⟩ := hsent
        · exact .inl hs
        · exact .inr ⟨hs, (congrArg Prod.fst (hpause rfl).2).trans hfrom⟩
    | game c =>
        cases c with
        | held cfg =>
            have hd := hheld _ rfl
            refine ⟨hsent.1, hsent.2.1, ?_⟩
            rw [hd]
            exact hstage (by simp [SessionCall.heldKeys, hd]) (hd ▸ hsent.2.2)
        | _ => exact hsent
    | _ => exact hsent
  wrote ha key hk := by
    rw [hheld _ (h.held_of_key hk).1]
    exact hwrote ha key hk (h.wrote ha key hk)
  wrotePause ha hp := by
    obtain ⟨w, -, hsent, -⟩ := h.gate
    have hwindow := (hpause (hsent.pauses_of_isPause hp)).2
    rw [window_apply, hwindow, ← window_apply]
    exact h.wrotePause ha hp

theorem HeldKeys.same_after_of_same {d k : HeldKeys} {rpc : Rpc} (hd : d.after rpc = d)
    (key : HeldKey) (h : k.Same d key) : (k.after rpc).Same d key := by
  by_cases hkey : rpc.key = some key
  · exact HeldKeys.same_after hd hkey
  · exact (HeldKeys.same_after_of_ne hkey).trans h

theorem Stage.after {d k : HeldKeys} {rpc rpc' : Rpc} (hd : d.after rpc' = d) (h : Stage d rpc k) :
    Stage d rpc (k.after rpc') := by
  have hbutton (h : k.button = d.button) : (k.after rpc').button = d.button :=
    HeldKeys.same_after_of_same hd .button h
  have hcrouch (h : k.crouch = d.crouch) : (k.after rpc').crouch = d.crouch :=
    HeldKeys.same_after_of_same hd .crouch h
  cases rpc with
  | updateBotConfigEntry e =>
      cases e with
      | crouchEnabled => exact hbutton h
      | nativeAutoSell => exact ⟨hbutton h.1, hcrouch h.2⟩
      | sellLeaseUntil =>
          obtain rfl : k = d := h
          exact hd
      | _ => trivial
  | _ => trivial

end Flights

namespace Ledger

def desired (L : Ledger) : HeldKeys := L.steady.pinned.cfg.keys

/-- The scheduler is in a call of a kind. -/
def Doing (L : Ledger) (active : Active) (P : SessionCall → Prop) : Prop :=
  (∃ f ∈ L.inFlight, f.job = .scheduler ∧ P f.call) ∨ ∃ c, active = some (.scheduler, some c) ∧ P c

/-- No write of this scheduler pass has failed. -/
def Clean (L : Ledger) : Prop :=
  L.configureFailed = false ∧ L.pauseFailed = false ∧ L.passed = false

structure Balanced (L : Ledger) (active : Active) : Prop where
  clock : L.now = L.steady.pinned.now
  single : L.inFlight.countP (·.job = .scheduler) + (active.any (·.1 = .scheduler)).toNat ≤
    L.steady.busy.toNat
  flights : ∀ f ∈ L.inFlight, Flight L.steady.pinned L.keys L.settings f
  /-- The settings are what the gateway was told, except for keys about to be confirmed. -/
  truth : ∀ key, L.settings.keys.Same L.keys key ∨
    L.settings.keys.Same L.desired key ∧ ∃ f ∈ L.inFlight, f.applied ∧ f.rpc.key = some key
  configured : L.keys = L.desired ∨ L.configureFailed ∨ L.steady.queued.any isConfigure ∨
    L.Doing active (·.heldKeys.isSome)
  lastConfigure : L.steady.queued.foldl latestConfigure L.steady.pinned.cfg = L.lastConfigure
  paused : ∃ p, L.steady.queued.foldl latestPause p = L.lastPause ∧
    ∀ x ∈ p, (∃ now, L.steady.pinned.window = Gateway.pauseWindow now x.1 x.2) ∧
      (L.settings.window = L.steady.pinned.window ∨ L.pauseFailed ∨ L.steady.queued.any isPause ∨
        L.Doing active (·.pauses))
  passed : L.passed → L.configureFailed = false ∧ L.pauseFailed = false
  clean : (∃ f ∈ L.inFlight, f.job = .scheduler) → L.Clean

/-! ### Calls of the scheduler -/

section Doing

variable {L : Ledger} {P : SessionCall → Prop} {job : Job} {c : SessionCall}

theorem Doing.enters (h : L.Doing (some (job, none)) P) : L.Doing (some (job, some c)) P := by
  obtain hf | ⟨c', hc', -⟩ := h
  · exact .inl hf
  · simp at hc'

theorem Doing.ends (h : L.Doing (some (job, none)) P) : L.Doing none P := by
  obtain hf | ⟨c', hc', -⟩ := h
  · exact .inl hf
  · simp at hc'

theorem Doing.starts (h : L.Doing none P) : L.Doing (some (job, none)) P := by
  obtain hf | ⟨c', hc', -⟩ := h
  · exact .inl hf
  · simp at hc'

theorem Doing.sends {f : InFlight} (h : L.Doing (some (f.job, some f.call)) P) :
    Doing { L with inFlight := f :: L.inFlight } none P := by
  obtain ⟨f', hf', h'⟩ | ⟨c', hc', hP⟩ := h
  · exact .inl ⟨f', by simp [hf'], h'⟩
  · simp only [Option.some.injEq, Prod.mk.injEq] at hc'
    exact .inl ⟨f, by simp, hc'.1, by rw [hc'.2]; exact hP⟩

theorem Doing.returns (h : L.Doing (some (job, some c)) P) :
    L.Doing (some (job, none)) P ∨ job = .scheduler ∧ P c := by
  obtain hf | ⟨c', hc', hP⟩ := h
  · exact .inl (.inl hf)
  · simp only [Option.some.injEq, Prod.mk.injEq] at hc'
    exact .inr ⟨hc'.1, by rw [hc'.2]; exact hP⟩

theorem Doing.answers {f : InFlight} {l₁ l₂ : List InFlight} (hl : L.inFlight = l₁ ++ f :: l₂)
    (h : L.Doing none P) :
    Doing { L with inFlight := l₁ ++ l₂ } (some (f.job, some f.call)) P := by
  obtain ⟨f', hf', h'⟩ | ⟨c', hc', -⟩ := h
  · obtain rfl | hne := List.mem_cons.mp (List.perm_middle.mem_iff.mp (hl ▸ hf'))
    · exact .inr ⟨f'.call, by rw [h'.1], h'.2⟩
    · exact .inl ⟨f', hne, h'⟩
  · simp at hc'

end Doing

namespace Balanced

variable {L : Ledger} {active : Active} {job : Job}

/-- While the scheduler runs, none of its calls is on its way. -/
theorem alone {c : Option SessionCall} (h : L.Balanced (some (.scheduler, c))) :
    ∀ f ∈ L.inFlight, f.job ≠ .scheduler := by
  have hsingle := h.single
  have hbusy := Bool.toNat_le L.steady.busy
  have hzero : L.inFlight.countP (·.job = .scheduler) = 0 := by
    simp only [Option.any_some, decide_true, Bool.toNat_true] at hsingle
    omega
  simpa using List.countP_eq_zero.mp hzero

/-- A task enters a call. -/
theorem enters (h : L.Balanced (some (job, none))) (c : SessionCall) :
    L.Balanced (some (job, some c)) where
  __ := h
  single := by simpa using h.single
  configured := h.configured.imp_right <| Or.imp_right <| Or.imp_right Doing.enters
  paused := by
    obtain ⟨p, hp, hx⟩ := h.paused
    refine ⟨p, hp, fun x hxp => ⟨(hx x hxp).1, ?_⟩⟩
    exact (hx x hxp).2.imp_right <| Or.imp_right <| Or.imp_right Doing.enters

/-- The scheduler takes a configuration, while no other is being written. -/
theorem takes_configure (h : L.Balanced (some (.scheduler, none))) {cfg : BehaviorConfig}
    {rest : List SessionCommand} (hq : L.steady.queued = .configure cfg :: rest)
    (hserial : ∀ f ∈ L.inFlight, ∀ d ∈ f.call.heldKeys, d = cfg.keys) :
    Balanced
      { L with steady := ⟨{ L.steady.pinned with cfg := cfg }, rest, L.steady.busy⟩ }
      (some (.scheduler, some (.game (.held cfg)))) := by
  have hsame (f : InFlight) (hf : f ∈ L.inFlight) (hd : L.desired ∈ f.call.heldKeys) :
      cfg.keys = L.desired := (hserial f hf _ hd).symm
  have hlast := h.lastConfigure
  obtain ⟨p, hp, hx⟩ := h.paused
  rw [hq] at hlast hp
  refine ⟨h.clock, by simpa using h.single, fun f hf => ?_, fun key => ?_, ?_, hlast, ⟨p, hp, ?_⟩,
    h.passed, h.clean⟩
  · have hflight := h.flights f hf
    refine hflight.change ?_ (fun _ => ⟨rfl, rfl⟩) (fun _ => id) fun _ _ _ => id
    intro d hd
    obtain rfl := hflight.held d hd
    exact hsame f hf hd
  · obtain hk | ⟨hk, f, hf, ha, hkey⟩ := h.truth key
    · exact .inl hk
    · have heq := hsame f hf ((h.flights f hf).held_of_key hkey).1
      exact .inr ⟨by rwa [desired, heq], f, hf, ha, hkey⟩
  · exact .inr (.inr (.inr (.inr ⟨_, rfl, rfl⟩)))
  · intro x hxp
    refine ⟨(hx x hxp).1, (hx x hxp).2.imp_right <| Or.imp_right <| Or.imp ?_ Doing.enters⟩
    rw [hq]
    exact id

/-- The scheduler takes a pause. -/
theorem takes_pause (h : L.Balanced (some (.scheduler, none))) {afterMs resumeMs : ℤ}
    {rest : List SessionCommand} (hq : L.steady.queued = .pauseAutosell afterMs resumeMs :: rest)
    {v : Behaviors.Pinned} (hcfg : v.cfg = L.steady.pinned.cfg) (hnow : v.now = L.steady.pinned.now)
    (hv : v.window = Gateway.pauseWindow v.now afterMs resumeMs) :
    Balanced { L with steady := ⟨v, rest, L.steady.busy⟩ }
      (some (.scheduler, some (.nativeSellPause afterMs resumeMs))) := by
  have hdesired : desired { L with steady := ⟨v, rest, L.steady.busy⟩ } = L.desired :=
    congrArg BehaviorConfig.keys hcfg
  have hlast := h.lastConfigure
  obtain ⟨p, hp, -⟩ := h.paused
  rw [hq] at hlast hp
  refine ⟨h.clock.trans hnow.symm, by simpa using h.single, fun f hf => ?_, fun key => ?_, ?_,
    (congrArg (rest.foldl latestConfigure) hcfg).trans hlast, ⟨some (afterMs, resumeMs), hp, ?_⟩,
    h.passed, h.clean⟩
  · have hflight := h.flights f hf
    refine hflight.change (fun d _ => congrArg BehaviorConfig.keys hcfg) ?_ (fun _ => id) fun _ _ _ => id
    exact fun hpause => absurd (hflight.owner hpause) (h.alone f hf)
  · rw [hdesired]
    exact h.truth key
  · rw [hdesired]
    refine h.configured.imp_right <| Or.imp_right <| Or.imp ?_ Doing.enters
    rw [hq]
    exact id
  · intro x hx
    obtain rfl : (afterMs, resumeMs) = x := by simpa using hx
    exact ⟨⟨v.now, hv⟩, .inr (.inr (.inr (.inr ⟨_, rfl, rfl⟩)))⟩

/-- The scheduler takes any other message. -/
theorem takes_other (h : L.Balanced (some (.scheduler, none))) {m : SessionCommand}
    {rest : List SessionCommand} (hq : L.steady.queued = m :: rest)
    (hm : isConfigure m = false ∧ isPause m = false) :
    Balanced { L with steady := { L.steady with queued := rest } } (some (.scheduler, none)) := by
  have hlast := h.lastConfigure
  obtain ⟨p, hp, hx⟩ := h.paused
  have hcfg (cfg : BehaviorConfig) : latestConfigure cfg m = cfg := by
    cases m <;> first | rfl | simp [isConfigure] at hm
  have hpause (p : Option (ℤ × ℤ)) : latestPause p m = p := by
    cases m <;> first | rfl | simp [isPause] at hm
  rw [hq, List.foldl_cons] at hlast hp
  rw [hcfg] at hlast
  rw [hpause] at hp
  refine ⟨h.clock, h.single, h.flights, h.truth, ?_, hlast, ⟨p, hp, fun x hxp => ?_⟩, h.passed, h.clean⟩
  · refine h.configured.imp_right <| Or.imp_right <| Or.imp_left ?_
    simp [hq, hm.1]
  · refine ⟨(hx x hxp).1, (hx x hxp).2.imp_right <| Or.imp_right <| Or.imp_left ?_⟩
    simp [hq, hm.2]

/-- A method of the gateway makes a remote call. -/
theorem sends {f : InFlight} (h : L.Balanced (some (f.job, some f.call)))
    (hf : Flight L.steady.pinned L.keys L.settings f) (hclean : f.job = .scheduler → L.Clean) :
    Balanced { L with inFlight := f :: L.inFlight } none where
  clock := h.clock
  single := by
    have hsingle := h.single
    simp only [Option.any_some] at hsingle
    rw [List.countP_cons]
    simp only [Option.any_none, Bool.toNat_false]
    split
    · simp_all
    · omega
  flights := by
    intro f' hf'
    obtain rfl | hf' := List.mem_cons.mp hf'
    · exact hf
    · exact h.flights f' hf'
  truth key := (h.truth key).imp_right fun ⟨hk, f', hf', hkey⟩ => ⟨hk, f', by simp [hf'], hkey⟩
  configured := h.configured.imp_right <| Or.imp_right <| Or.imp_right Doing.sends
  lastConfigure := h.lastConfigure
  paused := by
    obtain ⟨p, hp, hx⟩ := h.paused
    refine ⟨p, hp, fun x hxp => ⟨(hx x hxp).1, ?_⟩⟩
    exact (hx x hxp).2.imp_right <| Or.imp_right <| Or.imp_right Doing.sends
  passed := h.passed
  clean := by
    rintro ⟨f', hf', hjob⟩
    obtain rfl | hf' := List.mem_cons.mp hf'
    · exact hclean hjob
    · exact h.clean ⟨f', hf', hjob⟩

/-- A method of the gateway returns. -/
theorem returns {c : SessionCall} (h : L.Balanced (some (job, some c)))
    (hheld : job = .scheduler → c.heldKeys.isSome →
      L.keys = L.desired ∨ L.configureFailed ∨ L.steady.queued.any isConfigure)
    (hpause : job = .scheduler → c.pauses → L.settings.window = L.steady.pinned.window ∨ L.pauseFailed ∨
      L.steady.queued.any isPause) :
    L.Balanced (some (job, none)) where
  __ := h
  single := by simpa using h.single
  configured := by
    obtain hk | hf | hq | hd := h.configured
    · exact .inl hk
    · exact .inr (.inl hf)
    · exact .inr (.inr (.inl hq))
    · obtain hd | ⟨hjob, hc⟩ := hd.returns
      · exact .inr (.inr (.inr hd))
      · exact (hheld hjob hc).imp_right (Or.imp_right .inl)
  paused := by
    obtain ⟨p, hp, hx⟩ := h.paused
    refine ⟨p, hp, fun x hxp => ⟨(hx x hxp).1, ?_⟩⟩
    obtain hk | hf | hq | hd := (hx x hxp).2
    · exact .inl hk
    · exact .inr (.inl hf)
    · exact .inr (.inr (.inl hq))
    · obtain hd | ⟨hjob, hc⟩ := hd.returns
      · exact .inr (.inr (.inr hd))
      · exact (hpause hjob hc).imp_right (Or.imp_right .inl)

/-- Once the gateway has been told everything desired, no failure matters any more. -/
theorem catches_up (h : L.Balanced active) (hk : L.keys = L.desired) :
    Balanced { L with configureFailed := false } active where
  __ := h
  configured := .inl hk
  paused := h.paused
  passed hp := ⟨rfl, (h.passed hp).2⟩
  clean hf := ⟨rfl, (h.clean hf).2⟩

/-- A task ends; the scheduler's pass may have reached the end of its tick. -/
theorem ends (h : L.Balanced (some (job, none))) {p : Bool}
    (hpassed : p → job = .scheduler ∧ L.Clean) :
    Balanced
      { L with
        steady := { L.steady with busy := L.steady.busy && job ≠ .scheduler }
        passed := L.passed || p } none where
  clock := h.clock
  single := by
    have hsingle := h.single
    have hbusy := Bool.toNat_le L.steady.busy
    cases job with
    | scheduler =>
        simp only [Option.any_some, decide_true, Bool.toNat_true] at hsingle
        simp only [Option.any_none, Bool.toNat_false, ne_eq, not_true_eq_false, decide_false,
          Bool.and_false]
        omega
    | spawned | aside => simpa using hsingle
  flights := h.flights
  truth := h.truth
  configured := h.configured.imp_right <| Or.imp_right <| Or.imp_right Doing.ends
  lastConfigure := h.lastConfigure
  paused := by
    obtain ⟨p, hp, hx⟩ := h.paused
    refine ⟨p, hp, fun x hxp => ⟨(hx x hxp).1, ?_⟩⟩
    exact (hx x hxp).2.imp_right <| Or.imp_right <| Or.imp_right Doing.ends
  passed := by
    intro hp
    obtain hp | hp := Bool.or_eq_true_iff.mp hp
    · exact h.passed hp
    · exact ⟨(hpassed hp).2.1, (hpassed hp).2.2.1⟩
  clean := by
    rintro ⟨f, hf, hjob⟩
    have hc := h.clean ⟨f, hf, hjob⟩
    refine ⟨hc.1, hc.2.1, ?_⟩
    cases p with
    | false => simpa using hc.2.2
    | true =>
        obtain rfl := (hpassed rfl).1
        exact absurd hjob (h.alone f hf)

/-- The scheduler begins a pass. -/
theorem begins (h : L.Balanced none) (hbusy : L.steady.busy = false) :
    Balanced { L with steady := { L.steady with busy := true }, passed := false }
      (some (.scheduler, none)) where
  clock := h.clock
  single := by
    have hsingle := h.single
    simp only [hbusy, Option.any_none, Bool.toNat_false] at hsingle
    simp only [Option.any_some, decide_true, Bool.toNat_true]
    omega
  flights := h.flights
  truth := h.truth
  configured := h.configured.imp_right <| Or.imp_right <| Or.imp_right Doing.starts
  lastConfigure := h.lastConfigure
  paused := by
    obtain ⟨p, hp, hx⟩ := h.paused
    refine ⟨p, hp, fun x hxp => ⟨(hx x hxp).1, ?_⟩⟩
    exact (hx x hxp).2.imp_right <| Or.imp_right <| Or.imp_right Doing.starts
  passed := by simp
  clean hf := ⟨(h.clean hf).1, (h.clean hf).2.1, rfl⟩

/-- Any other task begins. -/
theorem starts (h : L.Balanced none) (hjob : job ≠ .scheduler) : L.Balanced (some (job, none)) where
  __ := h
  single := by simpa [hjob] using h.single
  configured := h.configured.imp_right <| Or.imp_right <| Or.imp_right Doing.starts
  paused := by
    obtain ⟨p, hp, hx⟩ := h.paused
    refine ⟨p, hp, fun x hxp => ⟨(hx x hxp).1, ?_⟩⟩
    exact (hx x hxp).2.imp_right <| Or.imp_right <| Or.imp_right Doing.starts

/-- A control message arrives. -/
theorem receives (h : L.Balanced active) (m : SessionCommand) {L' : Ledger}
    (hL : L' = { L with
      steady := { L.steady with queued := L.steady.queued ++ [m] }
      lastConfigure := latestConfigure L.lastConfigure m
      lastPause := latestPause L.lastPause m
      configureFailed := L.configureFailed && !isConfigure m
      pauseFailed := L.pauseFailed && !isPause m }) : L'.Balanced active := by
  subst hL
  have hfailed {failed : Bool} {kind : SessionCommand → Bool} {P : Prop} :
      failed ∨ L.steady.queued.any kind ∨ P →
        (failed && !kind m) ∨ (L.steady.queued ++ [m]).any kind ∨ P := by
    rw [List.any_append]
    cases failed <;> cases L.steady.queued.any kind <;> cases hm : kind m <;> simp [hm]
  obtain ⟨p, hp, hx⟩ := h.paused
  refine ⟨h.clock, h.single, h.flights, h.truth, ?_, ?_, ⟨p, ?_, fun x hxp => ⟨(hx x hxp).1, ?_⟩⟩,
    fun hpassed => ?_, fun hf => ?_⟩
  · exact h.configured.imp_right hfailed
  · rw [List.foldl_append, h.lastConfigure]
    rfl
  · rw [List.foldl_append, hp]
    rfl
  · exact (hx x hxp).2.imp_right hfailed
  · have hc := h.passed hpassed
    simp [hc]
  · have hc := h.clean hf
    exact ⟨by simp [hc.1], by simp [hc.2.1], hc.2.2⟩

/-- Time passes. -/
theorem clock_set (h : L.Balanced active) (now : ℤ) :
    Balanced
      { L with
        now := now
        steady := { L.steady with pinned := { L.steady.pinned with now := now } } } active where
  clock := rfl
  single := h.single
  flights f hf := (h.flights f hf).change (fun _ _ => rfl) (fun _ => ⟨rfl, rfl⟩)
    (fun _ => id) fun _ _ _ => id
  truth := h.truth
  configured := h.configured
  lastConfigure := h.lastConfigure
  paused := h.paused
  passed := h.passed
  clean := h.clean

/-- A pause that is not on its way alone would be a second call of the scheduler. -/
theorem pause_alone (h : L.Balanced active) {f f' : InFlight} {l₁ l₂ : List InFlight}
    (hl : L.inFlight = l₁ ++ f :: l₂) (hf' : f' ∈ l₁ ++ l₂) (hf : f.job = .scheduler) :
    f'.job ≠ .scheduler := by
  intro hjob
  have hsingle := h.single
  have hbusy := Bool.toNat_le L.steady.busy
  have hpos : 0 < (l₁ ++ l₂).countP (·.job = .scheduler) :=
    List.countP_pos_iff.mpr ⟨f', hf', by simpa using hjob⟩
  rw [hl, List.perm_middle.countP_eq, List.countP_cons_of_pos (by simpa using hf)] at hsingle
  omega

/-- The service applies a remote call. -/
theorem applies (h : L.Balanced active) {f : InFlight} {l₁ l₂ : List InFlight}
    (hl : L.inFlight = l₁ ++ f :: l₂) :
    Balanced
      { L with
        settings := f.rpc.apply L.settings
        inFlight := l₁ ++ { f with applied := true } :: l₂ } active := by
  have hf : f ∈ L.inFlight := by simp [hl]
  have hflight := h.flights f hf
  have hmem {f' : InFlight} (hf' : f' ∈ l₁ ++ l₂) : f' ∈ L.inFlight :=
    hl ▸ List.perm_middle.mem_iff.mpr (.tail _ hf')
  have hkeep {f' : InFlight} (hf' : f' ∈ L.inFlight) :
      ∃ f'' ∈ l₁ ++ { f with applied := true } :: l₂,
        f''.job = f'.job ∧ f''.call = f'.call ∧ f''.rpc = f'.rpc ∧ (f'.applied → f''.applied) := by
    rw [hl] at hf'
    obtain rfl | hf' := List.mem_cons.mp (List.perm_middle.mem_iff.mp hf')
    · exact ⟨{ f' with applied := true }, by simp, rfl, rfl, rfl, fun _ => rfl⟩
    · exact ⟨f', List.perm_middle.mem_iff.mpr (.tail _ hf'), rfl, rfl, rfl, id⟩
  have hsame (key : HeldKey) (hk : L.settings.keys.Same L.desired key) :
      (f.rpc.apply L.settings).keys.Same L.desired key := by
    rw [NativeSettings.keys_apply]
    by_cases hkey : f.rpc.key = some key
    · exact HeldKeys.same_after (hflight.held_of_key hkey).2 hkey
    · exact (HeldKeys.same_after_of_ne hkey).trans hk
  obtain ⟨w, hw, hsent, hkeeps⟩ := hflight.gate
  have hdoing {P : SessionCall → Prop} (hd : L.Doing active P) :
      Doing { L with
        settings := f.rpc.apply L.settings
        inFlight := l₁ ++ { f with applied := true } :: l₂ } active P := by
    obtain ⟨f', hf', hjob, hP⟩ | hd := hd
    · obtain ⟨f'', hf'', hjob', hcall, -⟩ := hkeep hf'
      exact .inl ⟨f'', hf'', hjob'.trans hjob, by rwa [hcall]⟩
    · exact .inr hd
  refine ⟨h.clock, ?_, fun f' hf' => ?_, fun key => ?_, ?_, h.lastConfigure, ?_, h.passed, ?_⟩
  · have hsingle := h.single
    rw [hl, List.perm_middle.countP_eq, List.countP_cons] at hsingle
    rw [List.perm_middle.countP_eq, List.countP_cons]
    exact hsingle
  · obtain rfl | hf' := List.mem_cons.mp (List.perm_middle.mem_iff.mp hf')
    · refine { hflight with
        gate := ⟨w, hw, hsent.applied, hkeeps⟩, wrote := fun _ key hkey => ?_, wrotePause := fun _ _ => ?_ }
      · rw [NativeSettings.keys_apply]
        exact HeldKeys.same_after (hflight.held_of_key hkey).2 hkey
      · simp only [window_apply, afterPause_twice]
    · have hflight' := h.flights f' (hmem hf')
      refine hflight'.change (fun _ _ => rfl) (fun hpauses => ⟨rfl, ?_⟩) (fun _ => id)
        fun _ key _ => hsame key
      have hrpc : f.rpc.isPause = false := by
        by_contra hrpc
        have hfpause := hsent.pauses_of_isPause (by simpa using hrpc)
        exact h.pause_alone hl hf' (hflight.owner hfpause) (hflight'.owner hpauses)
      rw [window_apply, afterPause_of_not_isPause _ hrpc]
  · by_cases hkey : f.rpc.key = some key
    · refine .inr ⟨?_, { f with applied := true }, by simp, rfl, hkey⟩
      rw [NativeSettings.keys_apply]
      exact HeldKeys.same_after (hflight.held_of_key hkey).2 hkey
    · obtain hk | ⟨hk, f', hf', ha, hkey'⟩ := h.truth key
      · rw [NativeSettings.keys_apply]
        exact .inl ((HeldKeys.same_after_of_ne hkey).trans hk)
      · obtain ⟨f'', hf'', -, -, hrpc, ha'⟩ := hkeep hf'
        exact .inr ⟨hsame key hk, f'', hf'', ha' ha, hrpc ▸ hkey'⟩
  · exact h.configured.imp_right <| Or.imp_right <| Or.imp_right hdoing
  · obtain ⟨p, hp, hx⟩ := h.paused
    refine ⟨p, hp, fun x hxp => ⟨(hx x hxp).1, ?_⟩⟩
    cases hrpc : f.rpc.isPause with
    | true =>
        have hfpause := hsent.pauses_of_isPause hrpc
        exact .inr (.inr (.inr (hdoing (.inl ⟨f, hf, hflight.owner hfpause, hfpause⟩))))
    | false =>
        rw [window_apply, afterPause_of_not_isPause _ hrpc]
        exact (hx x hxp).2.imp_right <| Or.imp_right <| Or.imp_right hdoing
  · rintro ⟨f', hf', hjob⟩
    obtain rfl | hf' := List.mem_cons.mp (List.perm_middle.mem_iff.mp hf')
    · exact h.clean ⟨f, hf, hjob⟩
    · exact h.clean ⟨f', hmem hf', hjob⟩

/-- A remote call is answered. Its value tells the gateway that the call is applied. -/
theorem answers (h : L.Balanced none) {f : InFlight} {l₁ l₂ : List InFlight}
    (hl : L.inFlight = l₁ ++ f :: l₂) {keys : HeldKeys}
    (hkeys : keys = L.keys.after f.rpc ∧ f.applied ∨
      keys = L.keys ∧ (f.rpc.key ≠ none → f.applied = false)) :
    Balanced { L with inFlight := l₁ ++ l₂, keys := keys } (some (f.job, some f.call)) := by
  have hf : f ∈ L.inFlight := by simp [hl]
  have hflight := h.flights f hf
  have hmem {f' : InFlight} (hf' : f' ∈ l₁ ++ l₂) : f' ∈ L.inFlight :=
    hl ▸ List.perm_middle.mem_iff.mpr (.tail _ hf')
  have hafter : L.desired.after f.rpc = L.desired := by
    cases hkey : f.rpc.key with
    | none => exact HeldKeys.after_of_key_none _ hkey
    | some key => exact (hflight.held_of_key hkey).2
  have hsame (key : HeldKey) (hk : L.keys.Same L.desired key) : keys.Same L.desired key := by
    obtain ⟨rfl, -⟩ | ⟨rfl, -⟩ := hkeys
    · exact HeldKeys.same_after_of_same hafter key hk
    · exact hk
  refine ⟨h.clock, ?_, fun f' hf' => ?_, fun key => ?_, ?_, h.lastConfigure, ?_, h.passed, ?_⟩
  · have hsingle := h.single
    rw [hl, List.perm_middle.countP_eq, List.countP_cons] at hsingle
    by_cases hjob : f.job = .scheduler <;> simpa [hjob] using hsingle
  · have hflight' := h.flights f' (hmem hf')
    refine hflight'.change (fun _ _ => rfl) (fun _ => ⟨rfl, rfl⟩) (fun _ hstage => ?_)
      fun _ _ _ => id
    obtain ⟨rfl, -⟩ | ⟨rfl, -⟩ := hkeys
    · exact hstage.after hafter
    · exact hstage
  · obtain hk | ⟨hk, f', hf', ha, hkey⟩ := h.truth key
    · obtain ⟨rfl, ha⟩ | ⟨rfl, -⟩ := hkeys
      · by_cases hkey : f.rpc.key = some key
        · exact .inl ((hflight.wrote ha key hkey).trans (HeldKeys.same_after hafter hkey).symm)
        · exact .inl (hk.trans (HeldKeys.same_after_of_ne hkey).symm)
      · exact .inl hk
    · rw [hl] at hf'
      obtain rfl | hf' := List.mem_cons.mp (List.perm_middle.mem_iff.mp hf')
      · obtain ⟨rfl, -⟩ | ⟨-, hlost⟩ := hkeys
        · exact .inl (hk.trans (HeldKeys.same_after hafter hkey).symm)
        · simp [hlost (by simp [hkey])] at ha
      · exact .inr ⟨hk, f', hf', ha, hkey⟩
  · refine h.configured.imp (fun hk => ?_) <| Or.imp_right <| Or.imp_right (Doing.answers hl)
    exact HeldKeys.eq_of_same fun key => hsame key (hk ▸ HeldKeys.same_refl _ key)
  · obtain ⟨p, hp, hx⟩ := h.paused
    refine ⟨p, hp, fun x hxp => ⟨(hx x hxp).1, ?_⟩⟩
    exact (hx x hxp).2.imp_right <| Or.imp_right <| Or.imp_right (Doing.answers hl)
  · intro ⟨f', hf', hjob⟩
    exact h.clean ⟨f', hmem hf', hjob⟩

/-- A call of the scheduler notes its failure. -/
theorem notes {c : Option SessionCall} (h : L.Balanced (some (.scheduler, c))) (hpassed : L.passed = false)
    {configureFailed pauseFailed : Bool} (hconfigure : L.configureFailed → configureFailed)
    (hpause : L.pauseFailed → pauseFailed) :
    Balanced { L with configureFailed := configureFailed, pauseFailed := pauseFailed }
      (some (.scheduler, c)) where
  __ := h
  configured := h.configured.imp_right <| Or.imp_left hconfigure
  paused := by
    obtain ⟨p, hp, hx⟩ := h.paused
    exact ⟨p, hp, fun x hxp => ⟨(hx x hxp).1, (hx x hxp).2.imp_right <| Or.imp_left hpause⟩⟩
  passed hp := by simp [hpassed] at hp
  clean := fun ⟨f, hf, hjob⟩ => absurd hjob (h.alone f hf)

end Balanced

end Ledger

end Session

end AfkClient

import AfkClient.Library.Run
import AfkClient.Verification.Behaviors.History
import AfkClient.Verification.Behaviors.Steps

/-! A run of commands and server messages, seen by the automation as it happens and read
back from the console log. -/

namespace AfkClient.HomeRecovery

open AfkClient.Task Behaviors Text

attribute [local irreducible] Re.test Re.capture

/-! ### The run -/

/-- What happens to a bot and is written to the log; the game answers a command at once. -/
inductive Happening where
  | command (text : String) (answers : (c : GameCall) → Except Failure c.Reply)
  | message (sender : Option String) (text : String)
  | row (type : ConsoleEventType) (text : String)

structure Event where
  what : Happening
  time : ℤ

def Event.row (e : Event) : HistoryRow :=
  match e.what with
  | .command text _ => ⟨.userCommand, text, e.time⟩
  | .message _ text => ⟨.serverMessage, text, e.time⟩
  | .row type text => ⟨type, text, e.time⟩

def typed (text : String) (answers : (c : GameCall) → Except Failure c.Reply) (s : Behaviors) :
    Behaviors × Except Failure Unit :=
  (runCommand ⟨.chat, some text⟩).finish answers s

/-- The automation lives through an event. -/
def live (s : Behaviors) (e : Event) : Behaviors :=
  let s := { s with now := e.time }
  match e.what with
  | .command text answers => (typed text answers s).1
  | .message sender text => s.onChat sender text
  | .row _ _ => s

/-- The line is read as the arrival at a home, now or from the log. -/
def IsArrival (text : String) : Prop :=
  arrived text ≠ none ∨ ∃ home : String, trim (removeCodes text.toList) = (confirmation home).toList

/-- Commands are dispatched, the server speaks for itself and confirms in one wording,
and what else is logged is no command, no message and no new connection. -/
def Logged (s : Behaviors) (e : Event) : Prop :=
  match e.what with
  | .command text answers => (typed text answers { s with now := e.time }).2 = .ok ()
  | .message sender text =>
      (sender.all fun name => name = "" || toLowerCase name.toList = "hugosmp".toList) ∧
        (IsArrival text → ∃ home : String, '§' ∉ home.toList ∧ text = confirmation home)
  | .row type _ => type ≠ .userCommand ∧ type ≠ .serverMessage ∧ connection e.row = none

/-! ### The errand -/

/-- The part of the automation that is about homes. -/
structure Errand where
  home : String
  pendingHome : Option PendingHome
  letterOrNumber : Char → Bool
  now : ℤ

def errand (s : Behaviors) : Errand := ⟨s.home, s.pendingHome, s.letterOrNumber, s.now⟩

/-- The home that a command asks for by a valid name. -/
def wanted (letterOrNumber : Char → Bool) (text : String) : Option String :=
  (requestedHome text).filter (validHome letterOrNumber)

def Errand.command (e : Errand) (text : String) : Errand :=
  { e with
    pendingHome := ((wanted e.letterOrNumber text).map (⟨·, e.now + 120_000⟩)).or e.pendingHome
    home := if isNavigation text && (requestedHome text).isNone then "" else e.home }

def Errand.message (e : Errand) (text : String) : Errand :=
  match arrived text, e.pendingHome with
  | some home, some pending =>
      if e.now ≤ pending.expires ∧ home = pending.name then
        { e with home := home, pendingHome := none }
      else e
  | _, _ => e

abbrev Aside {α : Type} (t : Code α) : Prop := t.Within errand fun _ => True

theorem InMenus.aside {α : Type} {t : Code α} (h : InMenus t) : Aside t := by
  refine h.mono (fun s s' hs => ?_) fun _ _ => trivial
  exact (congrArg errand hs : errand s.menusAside = errand s'.menusAside)

theorem recoveringHome_aside (pending : Bool) : Aside (recoveringHome pending) :=
  .bind within_read fun _ => .when _ (within_perform.mpr trivial)

theorem dispatch_aside (text : String) (automatic : Bool) : Aside (dispatch text automatic) := by
  unfold dispatch
  split
  · exact .bind (InMenus.aside (emitting_inMenus _)) fun _ => within_fail _
  · exact .bind (within_perform.mpr trivial) fun _ => .when _ (within_update.mpr fun _ => rfl)

variable {answers : (c : GameCall) → Except Failure c.Reply} {s s' : Behaviors}

theorem errand_finish {α : Type} {t : Code α} {r : Except Failure α}
    (h : t.finish answers s = (s', r)) (ht : Aside t) : errand s' = errand s := by
  rw [← Within.finish ht answers s, h]

/-- Behind the request of a home, a navigation command gives up the home that it does not name. -/
theorem navigate_errand {text : String}
    (h : (Task.when (isNavigation text) (navigate text)).finish answers s = (s', .ok ())) :
    errand s' = { errand s with
      home := if isNavigation text && (requestedHome text).isNone then "" else s.home } := by
  by_cases hnavigation : isNavigation text
  · rw [hnavigation] at h ⊢
    obtain ⟨s₁, _, h₁, h⟩ := finish_bind_ok h
    obtain ⟨rfl, -⟩ := Prod.mk.inj h₁
    obtain ⟨s₂, _, h₂, h⟩ := finish_bind_ok h
    have h₂ := errand_finish h₂ (recoveringHome_aside false)
    simp only [errand, Errand.mk.injEq] at h₂
    cases hnone : (requestedHome text).isNone with
    | true =>
        rw [hnone] at h
        obtain ⟨rfl, -⟩ := Prod.mk.inj h
        simp [errand, h₂]
    | false =>
        rw [hnone] at h
        obtain ⟨rfl, -⟩ := Prod.mk.inj h
        simp [errand, h₂]
  · rw [eq_false_of_ne_true hnavigation] at h ⊢
    obtain ⟨rfl, -⟩ := Prod.mk.inj h
    rfl

theorem typeCommand_errand {text : String}
    (h : (typeCommand text).finish answers s = (s', .ok ())) :
    errand s' = (errand s).command text := by
  obtain ⟨s₁, _, h₁, h⟩ := finish_bind_ok h
  obtain ⟨s₂, _, h₂, h⟩ := finish_bind_ok h
  obtain ⟨s₃, _, h₃, h⟩ := finish_bind_ok h
  have hafter : Aside (.update fun s : Behaviors => { s with manualUntil := s.now + 5000 } :
      Code Unit) := within_update.mpr fun _ => rfl
  have hlog : Aside (.when (isTeleportAnswer text) (.update scheduleSneak) >>=
      fun _ => emitting (.behaviorLog s!"Command dispatched: {text}")) :=
    .bind (.when _ (within_update.mpr fun _ => rfl)) fun _ => InMenus.aside (emitting_inMenus _)
  have hsent := errand_finish h (hafter.bind fun _ => hlog)
  have hdispatched := errand_finish h₃ (dispatch_aside text false)
  obtain ⟨hs₁, -⟩ := Prod.mk.inj h₁
  have hasked : errand s₁ = { errand s with
      pendingHome := ((wanted s.letterOrNumber text).map (⟨·, s.now + 120_000⟩)).or s.pendingHome } := by
    rw [← hs₁]
    dsimp only [wanted]
    split
    · rename_i home hhome
      simp [errand, hhome]
    · rename_i hhome
      simp [errand, hhome]
  have hnavigated := navigate_errand h₂
  have hhome : s₁.home = s.home := congrArg Errand.home hasked
  rw [hsent, hdispatched, hnavigated, hasked, hhome]
  rfl

theorem command_nothing (e : Errand) : e.command "" = e := by
  have hwanted : requestedHome "" = none := by decide +kernel
  have hnavigation : isNavigation "" = false := by decide +kernel
  simp [Errand.command, wanted, hwanted, hnavigation]

theorem command_errand {text : String} (h : typed text answers s = (s', .ok ())) :
    errand s' = (errand s).command text := by
  obtain ⟨s₁, _, h₁, h⟩ := finish_bind_ok h
  obtain ⟨s₂, before, h₂, h⟩ := finish_bind_ok h
  obtain ⟨s₃, _, h₃, h⟩ := finish_bind_ok h
  obtain ⟨s₄, inventory, h₄, h⟩ := finish_bind_ok h
  obtain ⟨s₅, _, h₅, h⟩ := finish_bind_ok h
  obtain ⟨s₆, _, h₆, h⟩ := finish_bind_ok h
  have hopened : errand s₆ = errand s :=
    calc
      _ = errand s₅ := errand_finish h₆ (within_update.mpr fun _ => rfl)
      _ = errand s₄ := errand_finish h₅ (.when _ (within_perform.mpr trivial))
      _ = errand s₃ := errand_finish h₄ (InMenus.aside (openMenu_inMenus _))
      _ = errand s₂ := errand_finish h₃ (within_update.mpr fun _ => rfl)
      _ = errand s₁ := errand_finish h₂ within_read
      _ = errand s := errand_finish h₁
        (.bind within_read fun _ => .when _ (within_perform.mpr trivial))
  rw [← hopened]
  dsimp only at h
  split at h
  · rename_i typed htyped
    obtain rfl := Option.some.inj (Option.filter_eq_some_iff.mp htyped).1
    exact typeCommand_errand h
  · rename_i hempty
    obtain ⟨rfl, -⟩ := Prod.mk.inj h
    obtain rfl : text = "" := by simpa using hempty
    rw [command_nothing]

/-! #### Messages -/

theorem errand_confirmHome (s : Behaviors) (text : String) :
    errand (s.confirmHome text) = (errand s).message text := by
  have harrived : (arrivedRe.capture 1 (plain text)).map String.ofList = arrived text := rfl
  rw [confirmHome, harrived, Errand.message]
  cases arrived text with
  | none => rfl
  | some home =>
      cases hpending : s.pendingHome with
      | none => simp [errand, hpending]
      | some pending =>
          simp only [errand, hpending]
          split <;> simp [hpending, emit]

theorem errand_onChat (s : Behaviors) {sender : Option String} (text : String)
    (hsender : sender.all fun name => name = "" || toLowerCase name.toList = "hugosmp".toList) :
    errand (s.onChat sender text) = (errand s).message text := by
  unfold onChat
  generalize "hugosmp".toList = server at hsender ⊢
  have hheard : (sender.any fun name => name ≠ "" && toLowerCase name.toList ≠ server) = false := by
    cases sender with
    | none => rfl
    | some name => simpa [or_iff_not_imp_left] using hsender
  rw [hheard]
  generalize teleportSuccess text = teleported
  generalize (payoutLine.test (plain text) && (parseSellEarning text).isSome) = paid
  generalize inventoryLocked.test (plain text) = locked
  have hteleport : errand (if teleported then { s.scheduleSneak with nextSneak := 0 } else s) =
      errand s := by
    cases teleported <;> rfl
  have hconfirm := errand_confirmHome
    (if teleported then { s.scheduleSneak with nextSneak := 0 } else s) text
  rw [hteleport] at hconfirm
  simp only [Bool.false_eq_true, if_false]
  generalize confirmHome _ text = t at hconfirm ⊢
  rw [← hconfirm]
  cases paid <;> cases locked <;> rfl

/-! ### Agreement -/

/-- A run, and whether a navigation command without a valid name of a home came since the
last request. -/
structure Story where
  bot : Behaviors
  revoked : Bool := false

def Story.step (r : Story) (e : Event) : Story where
  bot := live r.bot e
  revoked := match e.what with
    | .command text _ =>
        !(wanted r.bot.letterOrNumber text).isSome && (r.revoked || isNavigation text)
    | _ => r.revoked

/-- The message confirms in time the home that was asked for. -/
def Confirms (s : Behaviors) (time : ℤ) (text : String) : Prop :=
  ∃ pending, s.pendingHome = some pending ∧ time ≤ pending.expires ∧
    arrived text = some pending.name

/-- No home is held when a command names a home that cannot exist, and no confirmation
comes in time for a request that a later navigation command revoked. -/
def Undisturbed (r : Story) (e : Event) : Prop :=
  match e.what with
  | .command text _ =>
      isNavigation text → requestedHome text ≠ none → wanted r.bot.letterOrNumber text = none →
        r.bot.home = ""
  | .message _ text => r.revoked → ¬Confirms r.bot e.time text
  | .row _ _ => True

/-- A name that can be read off its confirmation. -/
structure Legible (name : String) : Prop where
  ne_nil : name.toList ≠ []
  plain : '§' ∉ name.toList
  line : ∀ c ∈ name.toList, isLineTerminator c = false

/-- What the log knows of the run. -/
structure Known (letterOrNumber : Char → Bool) (address : String) (r : Story) (h : History) :
    Prop where
  endpoint : h.endpoint = address
  letterOrNumber : r.bot.letterOrNumber = letterOrNumber
  pending : r.revoked = false →
    r.bot.pendingHome = h.pending.map fun p => ⟨p.home, p.requestedAt + 120_000⟩
  revoked : r.revoked = true → h.pending = none ∧ h.home = ""
  legible : ∀ pending, r.bot.pendingHome = some pending → Legible pending.name

section

variable {letterOrNumber : Char → Bool} {address : String} {r : Story} {h : History}

theorem legible_wanted
    (hletters : ∀ c, letterOrNumber c → c ≠ '§' ∧ isLineTerminator c = false) {text name : String}
    (hname : wanted letterOrNumber text = some name) : Legible name := by
  have hvalid := (Option.filter_eq_some_iff.mp hname).2
  simp only [validHome, Bool.and_eq_true, List.all_eq_true, decide_eq_true_eq] at hvalid
  obtain ⟨⟨hne, -⟩, hall⟩ := hvalid
  have hsigns : ∀ c ∈ name.toList, c ≠ '§' ∧ isLineTerminator c = false := by
    intro c hc
    have hc := hall c hc
    simp only [Bool.or_eq_true, beq_iff_eq] at hc
    rcases hc with ((hc | rfl) | rfl) | rfl
    · exact hletters c hc
    all_goals decide
  exact ⟨hne, fun hc => (hsigns _ hc).1 rfl, fun c hc => (hsigns c hc).2⟩

/-! #### Commands -/

variable {s : Behaviors} {text : String} {time : ℤ}

/-- A command for a home that may be remembered. -/
theorem command_some {name : String} (hwanted : wanted letterOrNumber text = some name) :
    h.command letterOrNumber ⟨.userCommand, text, time⟩ = { h with pending := some ⟨name, time⟩ } := by
  change Option.filter _ _ = _ at hwanted
  simp only [History.command, hwanted]

theorem command_none (hwanted : wanted letterOrNumber text = none) :
    h.command letterOrNumber ⟨.userCommand, text, time⟩ =
      if isNavigation text then { h with home := "", pending := none } else h := by
  change Option.filter _ _ = _ at hwanted
  simp only [History.command, hwanted]

theorem Known.command (hk : Known letterOrNumber address r h)
    (hletters : ∀ c, letterOrNumber c → c ≠ '§' ∧ isLineTerminator c = false)
    (hs : errand s = { errand r.bot with now := time }.command text) :
    Known letterOrNumber address
      ⟨s, !(wanted r.bot.letterOrNumber text).isSome && (r.revoked || isNavigation text)⟩
      (h.command letterOrNumber ⟨.userCommand, text, time⟩) := by
  simp only [errand, Errand.command, Errand.mk.injEq] at hs
  obtain ⟨-, hpending, hletter, -⟩ := hs
  rw [hk.letterOrNumber] at hpending hletter ⊢
  cases hwanted : wanted letterOrNumber text with
  | some name =>
      rw [hwanted] at hpending
      rw [command_some hwanted]
      refine ⟨hk.endpoint, hletter, fun _ => by simpa using hpending, (fun hnone => by cases hnone), ?_⟩
      intro pending hsome
      rw [hpending] at hsome
      cases hsome
      exact legible_wanted hletters hwanted
  | none =>
      rw [hwanted] at hpending
      rw [command_none hwanted]
      simp only [Option.map_none, Option.none_or] at hpending
      have hlegible : ∀ pending, s.pendingHome = some pending → Legible pending.name := by
        rw [hpending]
        exact hk.legible
      by_cases hnavigation : isNavigation text
      · rw [if_pos hnavigation]
        exact ⟨hk.endpoint, hletter, by simp [hnavigation], fun _ => ⟨rfl, rfl⟩, hlegible⟩
      · rw [if_neg hnavigation]
        refine ⟨hk.endpoint, hletter, fun hr => ?_, fun hr => hk.revoked ?_, hlegible⟩
        · rw [hpending]
          exact hk.pending (by simpa [hnavigation] using hr)
        · simpa [hnavigation] using hr

theorem home_command (hk : Known letterOrNumber address r h) (hhome : r.bot.home = h.home)
    (hs : errand s = { errand r.bot with now := time }.command text) :
    s.home = (h.command letterOrNumber ⟨.userCommand, text, time⟩).home ↔
      (isNavigation text → requestedHome text ≠ none → wanted r.bot.letterOrNumber text = none →
        r.bot.home = "") := by
  have hs : s.home = if isNavigation text && (requestedHome text).isNone then "" else r.bot.home :=
    congrArg Errand.home hs
  rw [hs, hk.letterOrNumber]
  cases hwanted : wanted letterOrNumber text with
  | some name =>
      have hrequested := (Option.filter_eq_some_iff.mp hwanted).1
      simp [command_some hwanted, hrequested, hhome]
  | none =>
      rw [command_none hwanted]
      by_cases hnavigation : isNavigation text
      · cases hrequested : requestedHome text <;> simp [hnavigation]
      · simp [hnavigation, hhome]

/-! #### Messages -/

/-- The server's wording and no other is understood on both sides. -/
theorem understood (harrival : IsArrival text → ∃ home : String, '§' ∉ home.toList ∧
    text = confirmation home) {name : String} (hname : Legible name) :
    arrived text = some name ↔ trim (removeCodes text.toList) = (confirmation name).toList := by
  constructor
  · intro harrived
    obtain ⟨home, hplain, rfl⟩ := harrival (.inl (by simp [harrived]))
    rw [arrived_eq_some hplain harrived, removeCodes_eq (confirmation_codes hplain),
      trim_confirmation]
  · intro hread
    obtain ⟨home, hplain, rfl⟩ := harrival (.inr ⟨name, hread⟩)
    rw [removeCodes_eq (confirmation_codes hplain), trim_confirmation] at hread
    obtain rfl := confirmation_injective (String.toList_inj.mp hread)
    exact arrived_of_home hplain hname.ne_nil hname.line

theorem message_confirmed {pending : PendingHome} (hpending : s.pendingHome = some pending)
    (htime : time ≤ pending.expires) (harrived : arrived text = some pending.name) :
    { errand s with now := time }.message text =
      { errand s with home := pending.name, pendingHome := none, now := time } := by
  simp [Errand.message, errand, hpending, htime, harrived]

theorem message_unconfirmed (h : ¬Confirms s time text) :
    { errand s with now := time }.message text = { errand s with now := time } := by
  unfold Errand.message
  split
  · rename_i home pending harrived hpending
    rw [if_neg]
    rintro ⟨htime, rfl⟩
    exact h ⟨pending, hpending, htime, harrived⟩
  · rfl

theorem history_message {p : RequestedHome} (hpending : h.pending = some p) :
    h.message ⟨.serverMessage, text, time⟩ =
      if time ≤ p.requestedAt + 120_000 ∧
          trim (removeCodes text.toList) = (confirmation p.home).toList then
        { h with home := p.home, pending := none }
      else h := by
  have htime : time - p.requestedAt ≤ 120_000 ↔ time ≤ p.requestedAt + 120_000 := by omega
  simp only [History.message, hpending, htime]

/-- A confirmation reaches the log's request, unless that was revoked. -/
theorem history_confirmed (hk : Known letterOrNumber address r h)
    (harrival : IsArrival text → ∃ home : String, '§' ∉ home.toList ∧ text = confirmation home)
    (hrevoked : r.revoked = false) {pending : PendingHome}
    (hpending : r.bot.pendingHome = some pending) (htime : time ≤ pending.expires)
    (harrived : arrived text = some pending.name) :
    h.message ⟨.serverMessage, text, time⟩ = { h with home := pending.name, pending := none } := by
  have hsame := (hk.pending hrevoked).symm.trans hpending
  obtain ⟨p, hp, rfl⟩ := Option.map_eq_some_iff.mp hsame
  rw [history_message hp, if_pos]
  exact ⟨htime, (understood harrival (hk.legible _ hpending)).mp harrived⟩

theorem history_unconfirmed (hk : Known letterOrNumber address r h)
    (harrival : IsArrival text → ∃ home : String, '§' ∉ home.toList ∧ text = confirmation home)
    (hrevoked : r.revoked = false) (hnone : ¬Confirms r.bot time text) :
    h.message ⟨.serverMessage, text, time⟩ = h := by
  cases hp : h.pending with
  | none => simp [History.message, hp]
  | some p =>
      have hpending : r.bot.pendingHome = some ⟨p.home, p.requestedAt + 120_000⟩ := by
        rw [hk.pending hrevoked, hp, Option.map_some]
      rw [history_message hp, if_neg]
      rintro ⟨htime, hread⟩
      have harrived := (understood harrival (hk.legible _ hpending)).mpr hread
      exact hnone ⟨_, hpending, htime, harrived⟩

theorem history_revoked (hk : Known letterOrNumber address r h) (hrevoked : r.revoked = true) :
    h.message ⟨.serverMessage, text, time⟩ = h := by
  simp [History.message, (hk.revoked hrevoked).1]

theorem Known.message (hk : Known letterOrNumber address r h)
    (harrival : IsArrival text → ∃ home : String, '§' ∉ home.toList ∧ text = confirmation home)
    (hs : errand s = { errand r.bot with now := time }.message text) :
    Known letterOrNumber address ⟨s, r.revoked⟩ (h.message ⟨.serverMessage, text, time⟩) := by
  by_cases hconfirms : Confirms r.bot time text
  · obtain ⟨pending, hpending, htime, harrived⟩ := hconfirms
    rw [message_confirmed hpending htime harrived] at hs
    have hnone : s.pendingHome = none := congrArg Errand.pendingHome hs
    have hletter : s.letterOrNumber = r.bot.letterOrNumber := congrArg Errand.letterOrNumber hs
    cases hrevoked : r.revoked with
    | false =>
        rw [history_confirmed hk harrival hrevoked hpending htime harrived]
        exact ⟨hk.endpoint, hletter.trans hk.letterOrNumber, fun _ => hnone, nofun, by simp [hnone]⟩
    | true =>
        rw [history_revoked hk hrevoked]
        exact ⟨hk.endpoint, hletter.trans hk.letterOrNumber, nofun, fun _ => hk.revoked hrevoked,
          by simp [hnone]⟩
  · rw [message_unconfirmed hconfirms] at hs
    have hpending : s.pendingHome = r.bot.pendingHome := congrArg Errand.pendingHome hs
    have hletter : s.letterOrNumber = r.bot.letterOrNumber := congrArg Errand.letterOrNumber hs
    have hsame : h.message ⟨.serverMessage, text, time⟩ = h := by
      cases hrevoked : r.revoked with
      | false => exact history_unconfirmed hk harrival hrevoked hconfirms
      | true => exact history_revoked hk hrevoked
    rw [hsame]
    refine ⟨hk.endpoint, hletter.trans hk.letterOrNumber, ?_, hk.revoked, ?_⟩
    · rw [hpending]
      exact hk.pending
    · rw [hpending]
      exact hk.legible

theorem home_message (hk : Known letterOrNumber address r h) (hhome : r.bot.home = h.home)
    (harrival : IsArrival text → ∃ home : String, '§' ∉ home.toList ∧ text = confirmation home)
    (hs : errand s = { errand r.bot with now := time }.message text) :
    s.home = (h.message ⟨.serverMessage, text, time⟩).home ↔
      (r.revoked → ¬Confirms r.bot time text) := by
  by_cases hconfirms : Confirms r.bot time text
  · obtain ⟨pending, hpending, htime, harrived⟩ := id hconfirms
    rw [message_confirmed hpending htime harrived] at hs
    have hs : s.home = pending.name := congrArg Errand.home hs
    cases hrevoked : r.revoked with
    | false =>
        rw [history_confirmed hk harrival hrevoked hpending htime harrived]
        simp [hs]
    | true =>
        have hne : pending.name ≠ "" := fun hempty =>
          (hk.legible pending hpending).ne_nil (by simp [hempty])
        rw [history_revoked hk hrevoked, (hk.revoked hrevoked).2, hs]
        simp [hne, hconfirms]
  · rw [message_unconfirmed hconfirms] at hs
    have hs : s.home = r.bot.home := congrArg Errand.home hs
    have hsame : h.message ⟨.serverMessage, text, time⟩ = h := by
      cases hrevoked : r.revoked with
      | false => exact history_unconfirmed hk harrival hrevoked hconfirms
      | true => exact history_revoked hk hrevoked
    rw [hsame, hs]
    simp [hconfirms, hhome]

/-! #### Runs -/

theorem row_unconnected (hk : Known letterOrNumber address r h) {row : HistoryRow}
    (hrow : connection row = none) : h.row letterOrNumber address row =
      match row.type with
      | .userCommand => h.command letterOrNumber row
      | .serverMessage => h.message row
      | _ => h := by
  simp only [History.row, hrow]
  exact if_neg (by simp [hk.endpoint])

theorem known_step (hletters : ∀ c, letterOrNumber c → c ≠ '§' ∧ isLineTerminator c = false)
    (hk : Known letterOrNumber address r h) {e : Event} (he : Logged r.bot e) :
    Known letterOrNumber address (r.step e) (h.row letterOrNumber address e.row) ∧
      (r.bot.home = h.home →
        ((r.step e).bot.home = (h.row letterOrNumber address e.row).home ↔ Undisturbed r e)) := by
  obtain ⟨what, time⟩ := e
  cases what with
  | command text answers =>
      have hs := command_errand (Prod.ext rfl he)
      rw [row_unconnected hk rfl]
      exact ⟨hk.command hletters hs, fun hhome => home_command hk hhome hs⟩
  | message sender text =>
      have hs := errand_onChat { r.bot with now := time } text he.1
      rw [row_unconnected hk rfl]
      exact ⟨hk.message he.2 hs, fun hhome => home_message hk hhome he.2 hs⟩
  | row type text =>
      obtain ⟨hcommand, hmessage, hrow⟩ := he
      have hsame : h.row letterOrNumber address (Event.row ⟨.row type text, time⟩) = h := by
        rw [row_unconnected hk hrow]
        simp only [Event.row]
      rw [hsame]
      exact ⟨⟨hk.endpoint, hk.letterOrNumber, hk.pending, hk.revoked, hk.legible⟩,
        fun hhome => by simpa [Story.step, live, Undisturbed] using hhome⟩

/-- The log is read while it is written. -/
def read (letterOrNumber : Char → Bool) (address : String) (p : Story × History) (e : Event) :
    Story × History :=
  ⟨p.1.step e, p.2.row letterOrNumber address e.row⟩

theorem read_run (p : Story × History) (events : List Event) :
    (run (read letterOrNumber address) p events).2 =
      (events.map Event.row).foldl (History.row letterOrNumber address) p.2 := by
  induction events generalizing p with
  | nil => rfl
  | cons e events ih => exact ih _

theorem connected_start {host : String} {port : ℕ} {start : HistoryRow}
    (hstart : connection start = some (HomeRecovery.address host port)) :
    History.row letterOrNumber (HomeRecovery.address host port) {} start =
      { endpoint := HomeRecovery.address host port } := by
  have htype : start.type = .system := by
    by_contra htype
    simp [connection, htype] at hstart
  simp [History.row, hstart, htype, History.connected]

end

/-- The import of the log agrees with the automation at every moment of a run exactly when
no command names a home that cannot exist while one is held, and no request is confirmed
that a later navigation command revoked. -/
theorem import_agrees_iff (config : BehaviorConfig) (game : GameGateway) (letterOrNumber : Char → Bool)
    (hletters : ∀ c, letterOrNumber c → c ≠ '§' ∧ isLineTerminator c = false) (host : String)
    (port : ℕ) (start : HistoryRow) (hstart : connection start = some (address host port))
    (hhome : (init config game letterOrNumber).home = "") (events : List Event)
    (hlogged : Meets live Logged (init config game letterOrNumber) events) :
    (∀ past, past <+: events →
      homeFromHistory letterOrNumber (start :: past.map Event.row) host port =
        (run live (init config game letterOrNumber) past).home) ↔
      Meets Story.step Undisturbed ⟨init config game letterOrNumber, false⟩ events := by
  let bot := init config game letterOrNumber
  let begun : Story × History := (⟨bot, false⟩, { endpoint := address host port })
  have hknown : Known letterOrNumber (address host port) begun.1 begun.2 :=
    ⟨rfl, rfl, fun _ => rfl, nofun, nofun⟩
  have hstory : ∀ p e, (read letterOrNumber (address host port) p e).1 = Story.step p.1 e :=
    fun _ _ => rfl
  have hbot : ∀ r e, (Story.step r e).bot = live r.bot e := fun _ _ => rfl
  have hmeets : Meets (read letterOrNumber (address host port)) (fun p => Logged p.1.bot) begun events :=
    (meets_image (C := fun r => Logged r.bot) hstory).mpr ((meets_image hbot).mpr hlogged)
  have hiff := along_iff_meets (P := fun p : Story × History => p.1.bot.home = p.2.home)
    (C := fun p => Undisturbed p.1)
    (fun p e hk he => (known_step hletters hk he).1)
    (fun p e hk hhome he => (known_step hletters hk he).2 hhome) hknown hhome hmeets
  rw [← meets_image (C := Undisturbed) (s := begun) hstory, ← hiff, along_iff_prefix]
  refine forall_congr' fun past => imp_congr_right fun _ => ?_
  have hlive : (run (read letterOrNumber (address host port)) begun past).1.bot = run live bot past := by
    rw [run_image hstory, run_image hbot]
  rw [hlive, read_run, homeFromHistory, List.foldl_cons, connected_start hstart]
  exact eq_comm

/-! #### Runs in which they agree and part -/

theorem isAlphanum_letters (c : Char) (h : c.isAlphanum) : c ≠ '§' ∧ isLineTerminator c = false := by
  refine ⟨?_, ?_⟩
  · rintro rfl
    exact absurd h (by decide)
  · by_contra hline
    simp only [isLineTerminator, Bool.not_eq_false, decide_eq_true_eq, List.mem_cons,
      List.not_mem_nil, or_false] at hline
    rcases hline with rfl | rfl | rfl | rfl
    all_goals exact absurd h (by decide)

def started : HistoryRow := ⟨.system, "Starte Minecraft-Verbindung zu play.hugosmp.net:25565…", 0⟩

theorem logged_command {s : Behaviors} {text : String} {time : ℤ}
    (h : (typed text accepting { s with now := time }).2 = .ok ()) :
    Logged s ⟨.command text accepting, time⟩ := h

theorem logged_confirmation {s : Behaviors} {home : String} {time : ℤ} (h : '§' ∉ home.toList) :
    Logged s ⟨.message none (confirmation home), time⟩ :=
  ⟨rfl, fun _ => ⟨home, h, rfl⟩⟩

/-- A home is asked for and reached, and another one after a visit to the spawn. -/
def journey : List Event :=
  [⟨.command "/home  base " accepting, 1⟩, ⟨.message none (confirmation "base"), 2⟩,
    ⟨.command "/spawn" accepting, 3⟩, ⟨.command "/home farm" accepting, 4⟩,
    ⟨.message none (confirmation "farm"), 5⟩]

theorem import_agrees_iff_journey :
    homeFromHistory Char.isAlphanum (started :: journey.map Event.row) "play.hugosmp.net" 25565 =
      (run live (init {} {} Char.isAlphanum) journey).home := by
  refine (import_agrees_iff {} {} Char.isAlphanum isAlphanum_letters "play.hugosmp.net" 25565 started
    (by decide +kernel) rfl journey ?_).mpr ?_ journey (List.prefix_refl _)
  · exact ⟨logged_command (by decide +kernel), logged_confirmation (by decide +kernel),
      logged_command (by decide +kernel), logged_command (by decide +kernel),
      logged_confirmation (by decide +kernel), trivial⟩
  · exact ⟨fun _ _ hwanted => absurd hwanted (by decide +kernel),
      fun hrevoked => absurd hrevoked (by decide +kernel),
      fun _ hrequested => absurd (by decide +kernel) hrequested,
      fun _ _ hwanted => absurd hwanted (by decide +kernel),
      fun hrevoked => absurd hrevoked (by decide +kernel), trivial⟩

/-- The confirmation of a request that `/spawn` revoked. -/
theorem import_disagrees :
    ¬ ∀ (config : BehaviorConfig) (game : GameGateway) (letterOrNumber : Char → Bool),
      (∀ c, letterOrNumber c → c ≠ '§' ∧ isLineTerminator c = false) →
      ∀ (host : String) (port : ℕ) (start : HistoryRow),
        connection start = some (address host port) →
        (init config game letterOrNumber).home = "" →
        ∀ events, Meets live Logged (init config game letterOrNumber) events →
          homeFromHistory letterOrNumber (start :: events.map Event.row) host port =
            (run live (init config game letterOrNumber) events).home := by
  intro h
  have hspawn := h {} {} Char.isAlphanum isAlphanum_letters "play.hugosmp.net" 25565 started
    (by decide +kernel) rfl [⟨.command "/home base" accepting, 1⟩, ⟨.command "/spawn" accepting, 2⟩,
      ⟨.message none (confirmation "base"), 3⟩]
    ⟨logged_command (by decide +kernel), logged_command (by decide +kernel),
      logged_confirmation (by decide +kernel), trivial⟩
  exact absurd hspawn (by decide +kernel)

end AfkClient.HomeRecovery

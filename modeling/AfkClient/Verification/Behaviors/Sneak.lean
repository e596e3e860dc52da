import AfkClient.Verification.Behaviors.Budget
import AfkClient.Verification.Behaviors.SneakTimer

/-! The held sneak key is reasserted after every teleport. A tick judges by the time it began at,
also where it waits for the game in front of the sneak step. -/

namespace AfkClient.Behaviors

open AfkClient.Task

attribute [local irreducible] Re.test Re.capture

/-! ### Frames -/

structure KeyView where
  sneakChecks : List ℤ
  nextSneak : ℤ
  crouchEnabled : Option Bool
  now : ℤ

def keyView (s : Behaviors) : KeyView := ⟨s.sneakChecks, s.nextSneak, s.cfg.crouchEnabled, s.now⟩

def NotKey : GameCall → Prop
  | .sneak | .chat _ => False
  | _ => True

/-- The task leaves the sneak key alone, and sends nothing. -/
abbrev Keyless {α : Type} (t : Code α) : Prop := t.Within keyView NotKey

theorem InMenus.keyless {α : Type} {t : Code α} (h : InMenus t) : Keyless t := by
  refine h.mono (fun s s' hs => ?_) fun c hc => ?_
  · exact (congrArg keyView hs : keyView s.menusAside = keyView s'.menusAside)
  · cases c <;> trivial

/-- What the code in front of a command leaves alone besides. -/
def typedView (s : Behaviors) : KeyView × ℕ := (keyView s, s.nextId)

abbrev Typed {α : Type} (t : Code α) : Prop := t.Within typedView NotKey

theorem Typed.keyless {α : Type} {t : Code α} (h : Typed t) : Keyless t :=
  h.mono (fun _ _ hs => congrArg Prod.fst hs) fun _ => id

theorem await_typed {c : GameCall} (h : NotKey c) : Typed (await c) := within_perform.mpr h

theorem emitting_typed (event : BotEvent) : Typed (emitting event) := within_update.mpr fun _ => rfl

theorem recoveringHome_typed (pending : Bool) : Typed (recoveringHome pending) :=
  .bind within_read fun _ => .when _ (await_typed trivial)

theorem settleHomeGate_typed : Typed settleHomeGate := by
  refine .bind within_read fun s => ?_
  split
  · exact .bind (recoveringHome_typed _) fun _ => within_update.mpr fun _ => rfl
  · exact within_pure ()

theorem settleSavedHome_typed : Typed settleSavedHome := by
  refine .bind within_read fun s => ?_
  split
  · refine .bind (.when _ (await_typed trivial)) fun _ => within_update.mpr fun s => ?_
    split <;> rfl
  · exact within_pure ()

theorem suspendSell_typed (durationMs : ℤ) : Typed (suspendSell durationMs) :=
  .bind within_read fun _ => .when _ (await_typed trivial)

theorem openMenu_typed (type : CommandType) : Typed (openMenu type) := by
  refine .bind within_read fun s => .orCatch (await_typed trivial) fun error => ?_
  split
  · exact within_pure _
  · exact within_fail _

theorem creditReady_typed (now : ℤ) : Typed (creditReady now) := by
  refine .bind (within_update.mpr fun s => ?_) fun _ => .bind within_read fun _ => within_pure _
  simp only [earnCredits]
  split_ifs <;> rfl

theorem navigate_typed (text : String) : Typed (navigate text) :=
  .bind (within_update.mpr fun _ => rfl) fun _ => .bind (recoveringHome_typed false) fun _ =>
    .when _ (within_update.mpr fun _ => rfl)

theorem cleanSpawner_keyless (generation : ℕ) (menu : String) :
    Keyless (cleanSpawner generation menu) := by
  refine .bind within_read fun s => .bind (within_perform.mpr trivial) fun opened => ?_
  split
  · exact .bind within_read fun _ => .when _ (setForeground_inMenus _).keyless
  · exact (emitting_typed _).keyless

theorem requestReturn_keyless : Keyless requestReturn :=
  .bind (within_update.mpr fun _ => rfl) fun _ => .bind within_read fun _ =>
    (recoveringHome_typed _).keyless

/-! ### Between two calls -/

/-- The call sends an answer to a teleport request. -/
def answersTeleport : GameCall → Bool
  | .chat text => isTeleportAnswer text
  | _ => false

/-- How the code between two calls began, and what it leaves of the sneak key. -/
structure Stretch where
  start : Behaviors
  goal : KeyView

/-- What the state looks like behind a call: an accepted answer to a teleport request owes a check. -/
def afterCall (accepted : Bool) (s : Behaviors) : KeyView :=
  if accepted then keyView s.scheduleSneak else keyView s

/-- Code behind the sneak step. -/
def keys : Protocol Behaviors GameCall GameCall.Reply Failure Stretch where
  call g c s := keyView s = g.goal ∧ c ≠ .sneak
  back _ _ _ _ _ := True
  next g c s a s' := ⟨s', afterCall (asksFor g.start s c && answersTeleport c && a.isOk) s'⟩

/-- The end of every stretch. -/
abbrev Leaves {α : Type} (g : Stretch) (_ : Except Failure α) (s : Behaviors) : Prop :=
  keyView s = g.goal

/-- Nothing is owed, and no sale was opened. -/
def Ready (g : Stretch) (s : Behaviors) : Prop := keyView s = g.goal ∧ s.nextId = g.start.nextId

variable {g : Stretch} {s : Behaviors}

theorem Ready.of_view {s' : Behaviors} (h : Ready g s) (hview : typedView s' = typedView s) :
    Ready g s' :=
  ⟨(congrArg Prod.fst hview).trans h.1, (congrArg Prod.snd hview).trans h.2⟩

theorem afterCall_other {c : GameCall} (hc : NotKey c) (start asked : Behaviors) (ok : Bool)
    (s : Behaviors) :
    afterCall (asksFor start asked c && answersTeleport c && ok) s = keyView s := by
  cases c <;> first | rfl | exact hc.elim

theorem NotKey.ne {c : GameCall} (hc : NotKey c) : c ≠ .sneak := by
  rintro rfl
  exact hc

theorem Typed.follows {α : Type} {t : Code α} (ht : Typed t) (h : Ready g s) :
    t.Follows keys (fun g _ s => Ready g s) g s := by
  refine Within.follows ht (fun g s s' hv hg => hg.of_view hv) (fun g c s hc hg => ?_) h
  refine ⟨⟨hg.1, hc.ne⟩, fun a s' _ => ⟨?_, rfl⟩⟩
  exact (afterCall_other hc g.start s a.isOk s').symm

theorem Keyless.leaves {α : Type} {t : Code α} (ht : Keyless t) (h : keyView s = g.goal) :
    t.Follows keys Leaves g s := by
  have hkeeps : ∀ (g : Stretch) s s', keyView s' = keyView s → keyView s = g.goal →
      keyView s' = g.goal := fun g s s' hv hg => hv.trans hg
  refine Within.follows ht hkeeps (fun g c s hc hg => ?_) h
  refine ⟨⟨hg, hc.ne⟩, fun a s' _ => ?_⟩
  exact (afterCall_other hc g.start s a.isOk s').symm

/-! ### Sending a command -/

/-- The text begins with neither name. -/
theorem name_unread {text : String} {x : Char} (name : List Char) {rest : List Char}
    {c d : Re.Cursor} (htext : text.toList = 't' :: name) (hafter : c.after = x :: rest)
    (hx : Re.sameLetter 't' x = false) : d ∉ (Re.ilit text).matchesAt c := by
  intro h
  obtain ⟨word, rest', hsplit, hword, -⟩ := Re.mem_ilit.mp h
  rw [htext] at hword
  cases hword with
  | @cons _ y _ word hy hword =>
      rw [hafter] at hsplit
      obtain ⟨rfl, -⟩ := List.cons.inj hsplit
      rw [hx] at hy
      cases hy

theorem home_no_answer (home : String) : isTeleportAnswer s!"/home {home}" = false := by
  have htext : (s!"/home {home}").toList = '/' :: 'h' :: ("ome ".toList ++ home.toList) := by
    change ("/home " ++ home).toList = _
    rw [String.toList_append]
    rfl
  have hnone : (Re.seqs [Re.lit "/", Re.oneOf [Re.ilit "tpaccept", Re.ilit "tpyes"],
      Re.oneOf [Text.space, Re.eos]]).matchesAt ⟨[], (s!"/home {home}").toList, []⟩ = [] := by
    refine List.eq_nil_iff_forall_not_mem.mpr fun d h => ?_
    obtain ⟨c, hslash, h⟩ := Re.mem_seq.mp h
    obtain ⟨e, hname, -⟩ := Re.mem_seq.mp h
    have hafter : c.after = 'h' :: ("ome ".toList ++ home.toList) := by
      obtain ⟨e, hset, heps⟩ := Re.mem_seq.mp
        (show c ∈ (Re.seq (Re.set (· == '/')) Re.eps).matchesAt _ from hslash)
      obtain ⟨x, rest, hsplit, -, rfl⟩ := Re.mem_set.mp hset
      obtain rfl := Re.mem_eps.mp heps
      exact (List.cons.inj (htext.symm.trans hsplit)).2.symm
    rcases Re.mem_alt.mp hname with hname | hname
    · exact name_unread "paccept".toList (by decide +kernel) hafter (by decide +kernel) hname
    · exact name_unread "pyes".toList (by decide +kernel) hafter (by decide +kernel) hname
  unfold isTeleportAnswer navigation Re.test
  change ((Re.seq Re.bos (Re.seqs [Re.lit "/", Re.oneOf [Re.ilit "tpaccept", Re.ilit "tpyes"],
      Re.oneOf [Text.space, Re.eos]])).exec (s!"/home {home}").toList).isSome = false
  rw [Re.exec_bos, hnone]
  rfl

/-- A command that is no answer to a teleport request. -/
theorem dispatch_leaves {text : String} (automatic : Bool)
    (htext : asksFor g.start s (.chat text) = true → isTeleportAnswer text = false)
    (h : keyView s = g.goal) : (dispatch text automatic).Follows keys Leaves g s := by
  unfold dispatch
  split
  · exact Keyless.leaves (.bind (emitting_typed _).keyless fun _ => within_fail _) h
  · refine follows_bind.mpr (follows_perform.mpr ⟨⟨h, nofun⟩, fun a s' _ => ?_⟩)
    have hgoal : (asksFor g.start s (.chat text) && answersTeleport (.chat text) && a.isOk) = false := by
      cases hask : asksFor g.start s (.chat text) with
      | false => rfl
      | true =>
          change (true && isTeleportAnswer text && a.isOk) = false
          rw [htext hask]
          rfl
    have hnext : keyView s' = (keys.next g (.chat text) s a s').goal := by
      change keyView s' = afterCall _ s'
      rw [hgoal]
      rfl
    cases a with
    | error e => exact hnext
    | ok a => exact Keyless.leaves (.when _ (within_update.mpr fun _ => rfl)) hnext

/-- One piece of code behind the other. -/
theorem leaves_bind {t : Code Unit} {f : Unit → Code Unit} (ht : t.Follows keys Leaves g s)
    (hf : ∀ a, Keyless (f a)) : (t >>= f).Follows keys Leaves g s :=
  ht.bind (fun _ a _ hg => Keyless.leaves (hf a) hg) fun _ _ _ hg => hg

theorem readMultipliers_leaves (generation : ℕ) (menu : String) (h : keyView s = g.goal) :
    (readMultipliers generation menu).Follows keys Leaves g s :=
  leaves_bind (dispatch_leaves false (fun _ => by decide +kernel) h) fun _ =>
    .bind within_read fun _ => .when _ (setForeground_inMenus _).keyless

/-- Behind an accepted answer to a teleport request a check is scheduled. -/
theorem dispatch_typed_leaves (text : String) (h : Ready g s) :
    (dispatch text false >>= fun _ => do
      .update fun s => { s with manualUntil := s.now + 5000 }
      .when (isTeleportAnswer text) (.update scheduleSneak)
      emitting (.behaviorLog s!"Command dispatched: {text}") : Code Unit).Follows keys Leaves g s := by
  unfold dispatch
  split
  · rw [Task.bind_assoc]
    exact Keyless.leaves (.bind (emitting_typed _).keyless fun _ => within_fail _) h.1
  · rw [Task.bind_assoc]
    refine follows_bind.mpr (follows_perform.mpr ⟨⟨h.1, nofun⟩, fun a s' _ => ?_⟩)
    have hask : asksFor g.start s (.chat text) = true := by simpa [asksFor] using h.2
    cases a with
    | error e =>
        change keyView s' = afterCall (_ && _ && false) s'
        rw [Bool.and_false]
        rfl
    | ok a =>
        have hgoal : (keys.next g (.chat text) s (.ok a) s').goal = afterCall (isTeleportAnswer text) s' := by
          change afterCall (asksFor g.start s (.chat text) && isTeleportAnswer text && true) s' = _
          rw [hask, Bool.true_and, Bool.and_true]
        generalize keys.next g (.chat text) s (.ok a) s' = g' at hgoal ⊢
        cases hanswer : isTeleportAnswer text with
        | false =>
            rw [hanswer] at hgoal
            exact hgoal.symm
        | true =>
            rw [hanswer] at hgoal
            exact hgoal.symm

theorem typeCommand_leaves (text : String) (h : Ready g s) :
    (typeCommand text).Follows keys Leaves g s := by
  have hnavigate : Typed (.when (isNavigation text) (navigate text)) := .when _ (navigate_typed text)
  refine (Typed.follows (within_update.mpr fun s => ?_) h).bind (fun g _ s hg => ?_)
    fun _ _ _ hg => hg.1
  · split <;> rfl
  refine (hnavigate.follows hg).bind (fun g _ s hg => ?_) fun _ _ _ hg => hg.1
  exact dispatch_typed_leaves text hg

theorem runCommand_leaves (command : Command) (h : Ready g s) :
    (runCommand command).Follows keys Leaves g s := by
  have hclose (inventory : GameInventory) : Typed
      (.when (inventory.containerSlots ≠ []) (await (.close inventory.menuId))) :=
    .when _ (within_perform.mpr trivial)
  refine ((suspendSell_typed _).follows h).bind (fun g _ s hg => ?_) fun _ _ _ hg => hg.1
  refine follows_read_bind.mpr (follows_update_bind.mpr ?_)
  have hcleared : Ready g { s with sell := none, foreground := none } := hg.of_view rfl
  refine ((openMenu_typed command.type).follows hcleared).bind (fun g inventory s hg => ?_)
    fun _ _ _ hg => hg.1
  refine ((hclose inventory).follows hg).bind (fun g _ s hg => ?_) fun _ _ _ hg => hg.1
  have hmanual : Ready g { s with manualUntil := s.now + 5000 } := hg.of_view rfl
  refine follows_update_bind.mpr ?_
  cases command.type with
  | readSellMultipliers => exact readMultipliers_leaves _ _ hmanual.1
  | cleanSpawner => exact Keyless.leaves (cleanSpawner_keyless _ _) hmanual.1
  | chat =>
      dsimp only
      split
      · exact typeCommand_leaves _ hmanual
      · exact hmanual.1

theorem takeCommand_leaves (command : Command) (now : ℤ) (h : Ready g s) :
    (takeCommand command now).Follows keys Leaves g s := by
  refine ((creditReady_typed now).follows h).bind (fun g ready s hg => ?_) fun _ _ _ hg => hg.1
  refine follows_when.mpr ?_
  split
  · have htaken : Ready g { s with commands := s.commands.tail } := hg.of_view rfl
    refine follows_update_bind.mpr ?_
    exact (runCommand_leaves command htaken).orCatch (fun _ _ _ hg => hg) fun _ e _ hg =>
      Keyless.leaves (emitting_typed _).keyless hg
  · exact hg.1

/-! ### Behind the sneak step -/

theorem returnHome_leaves (now : ℤ) (h : keyView s = g.goal) :
    (returnHome now).Follows keys Leaves g s := by
  refine follows_update_bind.mpr (follows_read_bind.mpr ?_)
  refine Follows.orCatch (Q := Leaves) ?_ (fun _ _ _ hg => hg) fun g error s hg => ?_
  · exact leaves_bind (dispatch_leaves false (fun _ => home_no_answer _) h) fun _ =>
      within_update.mpr fun _ => rfl
  · refine Keyless.leaves (within_update.mpr fun s => ?_) hg
    split <;> rfl

theorem startSale_leaves (generation : ℕ) (now : ℤ) (h : Ready g s) :
    (startSale generation now).Follows keys Leaves g s := by
  refine follows_read_bind.mpr (follows_update_bind.mpr ?_)
  have hnew : s.nextId + 1 ≠ g.start.nextId := by
    rw [h.2]
    exact Nat.succ_ne_self _
  have hsale : asksFor g.start { s with
      sell := some { id := s.nextId, requested := now }, nextId := s.nextId + 1 }
      (.chat s.sellCommand) = true → isTeleportAnswer s.sellCommand = false :=
    fun hask => absurd (of_decide_eq_true hask) hnew
  refine leaves_bind ((dispatch_leaves true hsale h.1).orCatch (fun _ _ _ hg => hg)
    fun g error s hg => ?_) fun _ => ?_
  · refine Keyless.leaves (.bind (within_update.mpr fun t => ?_) fun _ => within_fail _) hg
    split <;> rfl
  · exact .bind within_read fun t => .when _ (within_update.mpr fun t => rfl)

theorem tickSell_leaves (now : ℤ) (h : Ready g s) : (tickSell now).Follows keys Leaves g s := by
  refine follows_read_bind.mpr (follows_when.mpr ?_)
  split
  · refine ((await_typed (c := .inventory) trivial).follows h).bind (fun g inventory s hg => ?_)
      fun _ _ _ hg => hg.1
    refine follows_read_bind.mpr (follows_when.mpr ?_)
    split
    · split
      · exact Keyless.leaves (continueSale_inMenus _ _ _).keyless hg.1
      · split
        · refine Keyless.leaves (.when _ (.bind (within_perform.mpr trivial) fun _ => ?_)) hg.1
          exact within_update.mpr fun _ => rfl
        · refine follows_when.mpr ?_
          split
          · exact startSale_leaves _ _ hg
          · exact hg.1
    · exact hg.1
  · exact h.1

theorem tickAutomation_leaves (now : ℤ) (h : Ready g s) :
    (tickAutomation now).Follows keys Leaves g s := by
  refine follows_read_bind.mpr ?_
  split
  · exact Keyless.leaves cancelSell_inMenus.keyless h.1
  split
  · exact h.1
  split
  · exact Keyless.leaves (tickForeground_inMenus now).keyless h.1
  split
  · refine follows_when.mpr ?_
    split
    · refine ((creditReady_typed now).follows h).bind (fun g ready s hg => ?_) fun _ _ _ hg => hg.1
      refine follows_when.mpr ?_
      split
      · exact returnHome_leaves now hg.1
      · exact hg.1
    · exact h.1
  · refine follows_when.mpr ?_
    split
    · exact tickSell_leaves now h
    · exact h.1

/-- What a tick does behind the sneak step. -/
def afterSneak (now : ℤ) : Code Unit := do
  let s ← .read
  match s.commands with
  | command :: _ => takeCommand command now
  | [] => tickAutomation now

theorem afterSneak_leaves (now : ℤ) (h : Ready g s) : (afterSneak now).Follows keys Leaves g s := by
  refine follows_read_bind.mpr ?_
  split
  · exact takeCommand_leaves _ now h
  · exact tickAutomation_leaves now h

end AfkClient.Behaviors

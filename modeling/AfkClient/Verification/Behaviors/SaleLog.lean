import AfkClient.Verification.Behaviors.Sales

/-! What an observer notes of sales: the slots a sale captured and sent, the transfer that
waits for its confirmation, and when the sale has to end. -/

namespace AfkClient.Behaviors

open AfkClient.Task Text

attribute [local irreducible] Re.test Re.capture

/-! ### What an observer notes -/

/-- The stacks of a transfer as the snapshot before it showed them. -/
structure Shipment where
  items : List GameSlot
  sentAt : ℤ
  deriving DecidableEq

/-- A sale as an observer sees it. -/
structure SaleRecord where
  /-- When the game accepted the request; before that, when it was made. -/
  requested : ℤ
  opened : Option ℤ := none
  /-- The slots of the player in the snapshot in which the sale chose its targets. -/
  captured : List ℕ := []
  /-- The slots it shift-clicked. -/
  sent : List ℕ := []
  /-- How often it transferred all slots at once. -/
  batches : ℕ := 0
  /-- The last transfer, until a payout or a snapshot confirms it. -/
  unconfirmed : Option Shipment := none
  deriving DecidableEq

structure SaleLog where
  /-- The last sale that began. -/
  record : Option SaleRecord := none
  /-- Transfers that no sale made, or whose sale still waited for a confirmation. -/
  rash : List Waiting := []

namespace SaleRecord

/-- A payout confirms the last transfer, and a snapshot in which a stack of it is gone, is
another item or has fewer items. -/
def settle (r : SaleRecord) (paid : Bool) (snapshot : Option GameInventory) : SaleRecord :=
  { r with unconfirmed := r.unconfirmed.filter fun sent =>
      !paid && snapshot.all fun inventory => sent.items.all (unchangedIn inventory.slots) }

/-- The game accepts a message of the sale. -/
def accept (r : SaleRecord) (now : ℤ) : Option Sell.Message → SaleRecord
  | some .request => { r with requested := now }
  | some .transfer => { r with unconfirmed := r.unconfirmed.map fun sent =>
      { sent with sentAt := now } }
  | none => r

/-- The sale finds its menu and chooses its targets. -/
def follow (r : SaleRecord) (now : ℤ) (snapshot : Option GameInventory)
    (before after : Option Sell) :
    SaleRecord :=
  { r with
    opened := if r.opened.isNone && after.any (·.opened.isSome) then some now else r.opened
    captured :=
      if before.any (·.targets.isNone) && after.any (·.targets.isSome) then
        (snapshot.map GameInventory.populated).getD []
      else r.captured }

def send (r : SaleRecord) (now : ℤ) (shown : List GameSlot) : Option GameCall → SaleRecord
  | some (.click _ slot .transfer) =>
      { r with
        sent := r.sent ++ [slot]
        unconfirmed := some ⟨(shown.find? fun item => item.slot = slot && 0 < item.count).toList,
          now⟩ }
  | some (.transferAll _) =>
      { r with
        batches := r.batches + 1
        unconfirmed :=
          some ⟨shown.filter fun item => r.captured.contains item.slot && 0 < item.count, now⟩ }
  | _ => r

def note (r : SaleRecord) (g : Opening) (paid : Bool) (after : Option Sell)
    (call : Option GameCall) :
    SaleRecord :=
  (((r.settle paid g.snapshot).accept g.state.now g.stamp).follow g.state.now g.snapshot
    g.state.sell
    after).send g.state.now ((g.snapshot.map (·.slots)).getD []) call

/-- The sale has to end: its menu did not open in time, it is open for too long, or the last
transfer is not confirmed in time. -/
inductive Overdue (r : SaleRecord) (inventory : GameInventory) (now : ℤ) : Prop where
  | late (h : r.opened = none) (ht : 10_000 ≤ now - r.requested)
  | long {opened : ℤ} (h : r.opened = some opened) (ht : 120_000 ≤ now - opened)
  | stuck {sent : Shipment} (h : r.unconfirmed = some sent)
      (hsame : sent.items.all (unchangedIn inventory.slots)) (ht : 5_000 ≤ now - sent.sentAt)

end SaleRecord

/-- A message of the server that it has paid for items. -/
def Input.pays : Input → Bool
  | .chat sender message =>
      !(sender.any fun name => name ≠ "" && toLowerCase name.toList ≠ "hugosmp".toList)
        && payoutLine.test (plain message) && (parseSellEarning message).isSome
  | _ => false

/-- How the code of the round begins that a step runs. -/
def Scheduler.opening (b : Scheduler) (i : Input) : Opening :=
  match i, b.round with
  | .answer 0 answers, some w =>
      ⟨b.fresh, snapshotOf w.call (answers w.call), stampOf w.since w.asked w.call (answers w.call)⟩
  | _, _ => ⟨b.fresh, none, none⟩

namespace SaleLog

/-- A step from `g.state` to a state with the sale `after` that makes the call of `made`. -/
def enter (l : SaleLog) (g : Opening) (paid : Bool) (after : Option Sell) (made : Option Waiting) :
    SaleLog where
  record :=
    if g.state.sell.isNone && after.isSome then some { requested := g.state.now }
    else l.record.map (·.note g paid after (made.map (·.call)))
  rash := l.rash ++ made.toList.filter fun w => w.call.transfers &&
    (g.state.sell.isNone || l.record.any fun r => (r.settle paid g.snapshot).unconfirmed.isSome)

def note (l : SaleLog) (b : Scheduler) (i : Input) (b' : Scheduler) : SaleLog :=
  l.enter (b.opening i) i.pays b'.vars.sell b'.made

/-- What a run shows of its sales: each captured slot is sent once at most, by a click or in
the only batch, and no transfer goes out before the last one is confirmed. -/
structure Fair (l : SaleLog) : Prop where
  once : ∀ r ∈ l.record, r.sent.Sublist r.captured
  batch : ∀ r ∈ l.record, r.batches = 0 ∨ r.batches = 1 ∧ r.sent = []
  patient : l.rash = []

end SaleLog

/-- A bot under observation. -/
def watchSales (p : Scheduler × SaleLog) (i : Input) : Scheduler × SaleLog :=
  (p.1.step i, p.2.note p.1 i (p.1.step i))

/-! ### The record of the sale in progress -/

/-- The record and the sale agree; `all` says whether the game transfers all slots at once. -/
structure Tracks (all : Bool) (r : SaleRecord) (sale : Sell) : Prop where
  requested : r.requested = sale.requested
  untouched : sale.targets = none →
    r.sent = [] ∧ r.batches = 0 ∧ r.unconfirmed = none ∧ sale.pending = none
  rest : ∀ targets ∈ sale.targets, ∃ gone, r.captured = gone ++ targets ∧ r.sent.Sublist gone
  batch : all = true → r.sent = [] ∧ r.batches ≤ 1 ∧ ∀ targets ∈ sale.targets, targets = []
  single : all = false → r.batches = 0
  unconfirmed : ∀ sent ∈ r.unconfirmed, ∃ p ∈ sale.pending,
    p.batch.getD [p.slot] = sent.items ∧ p.sentAt = sent.sentAt ∧ p.confirmed = false

variable {all : Bool} {r : SaleRecord} {sale : Sell}

theorem Tracks.once (h : Tracks all r sale) : r.sent.Sublist r.captured := by
  cases htargets : sale.targets with
  | none => simp [(h.untouched htargets).1]
  | some targets =>
      obtain ⟨gone, hcaptured, hsent⟩ := h.rest targets htargets
      rw [hcaptured]
      exact hsent.trans (List.sublist_append_left gone targets)

theorem Tracks.batches (h : Tracks all r sale) : r.batches = 0 ∨ r.batches = 1 ∧ r.sent = [] := by
  cases all with
  | false => exact .inl (h.single rfl)
  | true =>
      obtain ⟨hsent, hbatches, -⟩ := h.batch rfl
      exact (Nat.le_one_iff_eq_zero_or_eq_one.mp hbatches).imp id fun hone => ⟨hone, hsent⟩

theorem Tracks.begun (all : Bool) (id : ℕ) (now : ℤ) :
    Tracks all { requested := now } { id := id, requested := now } := by
  refine ⟨rfl, fun _ => ⟨rfl, rfl, rfl, rfl⟩, ?_, fun _ => ⟨rfl, by simp, ?_⟩, fun _ => rfl, ?_⟩
  all_goals simp

/-- A transfer that a snapshot does not confirm keeps the sale waiting. -/
theorem Tracks.waits (h : Tracks all r sale) {sent : Shipment} (hsent : r.unconfirmed = some sent)
    {inventory : GameInventory} (hsame : sent.items.all (unchangedIn inventory.slots)) :
    sale.waits inventory = true := by
  obtain ⟨p, hp, hitems, -, hconfirmed⟩ := h.unconfirmed sent hsent
  simp only [Sell.waits, Option.mem_def.mp hp, Option.any_some, hconfirmed, hitems]
  simpa using hsame

/-- A sale that does not wait has the snapshot confirm the last transfer. -/
theorem Tracks.settled (h : Tracks all r sale) (inventory : GameInventory)
    (hfree : sale.waits inventory = false) (paid : Bool) :
    (r.settle paid (some inventory)).unconfirmed = none := by
  refine Option.filter_eq_none_iff.mpr fun sent hsent hkept => ?_
  simp only [Option.all_some, Bool.and_eq_true] at hkept
  simp [h.waits hsent hkept.2] at hfree

/-- What is known of the record without its unconfirmed transfer. -/
theorem Tracks.settle (h : Tracks all r sale) (paid : Bool) (snapshot : Option GameInventory) :
    Tracks all (r.settle paid snapshot) sale := by
  refine ⟨h.requested, fun htargets => ?_, h.rest, h.batch, h.single, fun sent hsent => ?_⟩
  · obtain ⟨hsent, hbatches, hnone, hpending⟩ := h.untouched htargets
    exact ⟨hsent, hbatches, by simp [SaleRecord.settle, hnone], hpending⟩
  · exact h.unconfirmed sent (Option.mem_filter_iff.mp hsent).1

theorem Tracks.accept (h : Tracks all r sale) (now : ℤ) (m : Sell.Message) :
    Tracks all (r.accept now (some m)) (sale.stamp now m) := by
  cases m with
  | request => exact ⟨rfl, h.untouched, h.rest, h.batch, h.single, h.unconfirmed⟩
  | transfer =>
      refine ⟨h.requested, fun htargets => ?_, h.rest, h.batch, h.single, fun sent hsent => ?_⟩
      · obtain ⟨hsent, hbatches, hnone, hpending⟩ := h.untouched htargets
        exact ⟨hsent, hbatches, by simp [SaleRecord.accept, hnone], by simp [Sell.stamp, hpending]⟩
      · obtain ⟨first, hfirst, rfl⟩ := Option.map_eq_some_iff.mp hsent
        obtain ⟨p, hp, hitems, -, hconfirmed⟩ := h.unconfirmed first hfirst
        exact ⟨{ p with sentAt := now }, by simp [Sell.stamp, Option.mem_def.mp hp], hitems, rfl,
          hconfirmed⟩

/-- A payout confirms the transfer in the sale, and in the record. -/
theorem Tracks.confirm (h : Tracks all r sale) (snapshot : Option GameInventory) :
    Tracks all (r.settle true snapshot) sale.confirm := by
  have hnone : (r.settle true snapshot).unconfirmed = none := by simp [SaleRecord.settle]
  refine ⟨h.requested, fun htargets => ?_, h.rest, h.batch, h.single, ?_⟩
  · obtain ⟨hsent, hbatches, -, hpending⟩ := h.untouched htargets
    exact ⟨hsent, hbatches, hnone, by simp [Sell.confirm, hpending]⟩
  · simp [hnone]

/-- A sale that keeps its targets has chosen none. -/
theorem Tracks.follow (h : Tracks all r sale) (now : ℤ) (snapshot : Option GameInventory)
    (before after : Option Sell)
    (hsame : before.any (·.targets.isNone) = true → after.any (·.targets.isSome) = false) :
    Tracks all (r.follow now snapshot before after) sale := by
  have hcaptured : (r.follow now snapshot before after).captured = r.captured := by
    refine if_neg fun hboth => ?_
    rw [Bool.and_eq_true] at hboth
    simp [hsame hboth.1] at hboth
  refine ⟨h.requested, h.untouched, ?_, h.batch, h.single, h.unconfirmed⟩
  rw [hcaptured]
  exact h.rest

/-- The targets of the sale are what is left of the captured slots. -/
theorem Tracks.aims (h : Tracks all r sale) (now : ℤ) (inventory : GameInventory) (sale' : Sell)
    (hsale' : sale'.targets.isSome) : ∃ gone,
      (r.follow now (some inventory) (some sale) (some sale')).captured =
        gone ++ sale.aims inventory ∧
        r.sent.Sublist gone := by
  cases htargets : sale.targets with
  | none =>
      refine ⟨[], ?_, by simp [(h.untouched htargets).1]⟩
      simp [SaleRecord.follow, Sell.aims, htargets, hsale']
  | some targets =>
      obtain ⟨gone, hcaptured, hsent⟩ := h.rest targets htargets
      refine ⟨gone, ?_, hsent⟩
      simp [SaleRecord.follow, Sell.aims, htargets, hcaptured]

theorem Tracks.read (h : Tracks all r sale) {inventory : GameInventory} {now : ℤ} {sale' : Sell}
    {c : Option GameCall} (hreads : sale.Reads all inventory now sale' c) :
    Tracks all (((r.settle false (some inventory)).follow now (some inventory) (some sale)
      (some sale')).send now inventory.slots c) sale' := by
  have hsettled := h.settle false (some inventory)
  have hunconfirmed := fun hfree => h.settled inventory hfree false
  generalize r.settle false (some inventory) = r at hsettled hunconfirmed
  cases hreads with
  | loading htargets =>
      have hfollow := hsettled.follow now (some inventory) (some sale)
        (some (sale.bind inventory now)) fun _ => by simp [Sell.bind, htargets]
      exact ⟨hfollow.requested, hfollow.untouched, hfollow.rest, hfollow.batch, hfollow.single,
        hfollow.unconfirmed⟩
  | holding hwaits htime =>
      have htargets : sale.targets ≠ none := by
        intro htargets
        simp [Sell.waits, (hsettled.untouched htargets).2.2.2] at hwaits
      have haims : some (sale.aims inventory) = sale.targets := by
        cases htargets' : sale.targets with
        | none => exact absurd htargets' htargets
        | some targets => simp [Sell.aims, htargets']
      obtain ⟨gone, hcaptured, hsent⟩ := hsettled.aims now inventory
        { sale.bind inventory now with targets := some (sale.aims inventory) } rfl
      refine ⟨hsettled.requested, nofun, fun targets hmem => ?_, fun hall => ?_, hsettled.single,
        hsettled.unconfirmed⟩
      · obtain rfl : sale.aims inventory = targets := by simpa using hmem
        exact ⟨gone, hcaptured, hsent⟩
      · obtain ⟨hnone, hbatches, hempty⟩ := hsettled.batch hall
        exact ⟨hnone, hbatches, fun targets hmem => hempty targets (haims ▸ hmem)⟩
  | @skipping target targets hall hfree haims =>
      obtain ⟨gone, hcaptured, hsent⟩ := hsettled.aims now inventory
        { sale.bind inventory now with targets := some targets, pending := none } rfl
      refine ⟨hsettled.requested, nofun, fun targets' hmem => ?_, fun hone =>
        ?_, hsettled.single, ?_⟩
      · obtain rfl : targets = targets' := by simpa using hmem
        refine ⟨gone ++ [target], ?_, hsent.trans (List.sublist_append_left gone [target])⟩
        rw [List.append_assoc, List.singleton_append, ← haims]
        exact hcaptured
      · simp [hall] at hone
      · intro sent hmem
        simp [SaleRecord.send, SaleRecord.follow, hunconfirmed hfree] at hmem
  | @sending target targets item hall hfree haims hitem =>
      obtain ⟨gone, hcaptured, hsent⟩ := hsettled.aims now inventory { sale.bind inventory now with
        targets := some targets, pending := some ⟨item, none, now, false⟩ } rfl
      have hslot : item.slot = target := by
        have hfound := List.find?_some hitem
        simp only [Bool.and_eq_true, decide_eq_true_eq] at hfound
        exact hfound.1
      refine ⟨hsettled.requested, nofun, fun targets' hmem => ?_, fun hone =>
        ?_, hsettled.single, ?_⟩
      · obtain rfl : targets = targets' := by simpa using hmem
        refine ⟨gone ++ [target], ?_, ?_⟩
        · rw [List.append_assoc, List.singleton_append, ← haims]
          exact hcaptured
        · rw [← hslot]
          exact hsent.append_right [item.slot]
      · simp [hall] at hone
      · intro sent hmem
        obtain rfl : _ = sent := Option.some.inj hmem
        refine ⟨⟨item, none, now, false⟩, rfl, ?_, rfl, rfl⟩
        simp [hslot, hitem]
  | @sendingAll item items hall hfree haims hitems =>
      obtain ⟨hnone, -, hempty⟩ := hsettled.batch hall
      have htargets : sale.targets = none := by
        cases htargets : sale.targets with
        | none => rfl
        | some targets =>
            exact absurd (hempty targets htargets) (by simpa [Sell.aims, htargets] using haims)
      obtain ⟨gone, hcaptured, hsent⟩ := hsettled.aims now inventory { sale.bind inventory now with
        targets := some [], pending := some ⟨item, some (item :: items), now, false⟩ } rfl
      obtain ⟨-, hbatches, -, -⟩ := hsettled.untouched htargets
      refine ⟨hsettled.requested, nofun, fun targets' hmem => ?_, fun _ => ?_, fun hmany => ?_, ?_⟩
      · obtain rfl : [] = targets' := by simpa using hmem
        exact ⟨_, (List.append_nil _).symm, by simp [SaleRecord.send, SaleRecord.follow, hnone]⟩
      · exact ⟨hnone, by simp [SaleRecord.send, SaleRecord.follow, hbatches], by simp⟩
      · simp [hall] at hmany
      · intro sent hmem
        obtain rfl : _ = sent := Option.some.inj hmem
        refine ⟨⟨item, some (item :: items), now, false⟩, rfl, ?_, rfl, rfl⟩
        have hchosen : (r.follow now (some inventory) (some sale)
            (some { sale.bind inventory now with
              targets := some []
              pending := some ⟨item, some (item :: items), now, false⟩ })).captured =
                sale.aims inventory := by
          simp [SaleRecord.follow, Sell.aims, htargets]
        rw [hchosen, hitems]
        rfl

/-! ### Steps -/

theorem Drift.of_menus {s s' : Behaviors} (h : menus s' = menus s) : Drift s s' := by
  simp only [menus, Menus.mk.injEq] at h
  refine ⟨fun sale' hsale' => ⟨.inl (h.1 ▸ hsale'), h.2.2.1⟩, fun hs => ?_, h.2.2.2⟩
  rw [h.2.1, hs]

theorem Drift.of_none {s s' : Behaviors} (hsell : s'.sell = none)
    (hforeground : s'.foreground = none)
    (hgame : s'.game = s.game) : Drift s s' :=
  ⟨by simp [hsell], fun _ => hforeground, hgame⟩

theorem confirm_confirm (sale : Sell) : sale.confirm.confirm = sale.confirm := by
  simp only [Sell.confirm, Option.map_map]
  rfl

theorem Drift.trans {s s' s'' : Behaviors} (h : Drift s s') (h' : Drift s' s'') : Drift s s'' := by
  refine ⟨fun sale'' hsale'' => ?_, fun hs => h'.foreground (h.foreground hs), h'.game.trans h.game⟩
  obtain ⟨hlast, hgeneration'⟩ := h'.sell sale'' hsale''
  obtain hsame | ⟨sale', hsale', rfl⟩ := hlast
  · obtain ⟨hfirst, hgeneration⟩ := h.sell sale'' hsame
    exact ⟨hfirst, hgeneration'.trans hgeneration⟩
  · obtain ⟨hfirst, hgeneration⟩ := h.sell sale' hsale'
    refine ⟨.inr ?_, hgeneration'.trans hgeneration⟩
    obtain hsame | ⟨sale, hsale, rfl⟩ := hfirst
    · exact ⟨sale', hsame, rfl⟩
    · exact ⟨sale, hsale, confirm_confirm sale⟩

/-- What a step beside the round does to the sale. -/
structure Passes (paid : Bool) (s s' : Behaviors) : Prop where
  drift : Drift s s'
  sell : s'.sell = none ∨ s'.sell = s.sell ∨ paid = true ∧ s'.sell = s.sell.map Sell.confirm

theorem Passes.of_menus {paid : Bool} {s s' : Behaviors} (h : menus s' = menus s) :
    Passes paid s s' :=
  ⟨.of_menus h, .inr (.inl (congrArg Menus.sell h))⟩

theorem menus_confirmHome (s : Behaviors) (message : String) :
    menus (s.confirmHome message) = menus s := by
  unfold confirmHome
  split
  · split <;> rfl
  · rfl

theorem confirmPayout_passes (s : Behaviors) : Passes true s s.confirmPayout := by
  refine ⟨⟨fun sale' hsale' => ⟨.inr ?_, rfl⟩, fun hs => ?_, rfl⟩, .inr (.inr ⟨rfl, rfl⟩)⟩
  · obtain ⟨sale, hsale, rfl⟩ := Option.map_eq_some_iff.mp hsale'
    exact ⟨sale, hsale, rfl⟩
  · simp [confirmPayout, hs]

theorem onChat_passes (s : Behaviors) (sender : Option String) (message : String) :
    Passes (Input.chat sender message).pays s (s.onChat sender message) := by
  have hpays : (Input.chat sender message).pays =
      (!(sender.any fun name => name ≠ "" && toLowerCase name.toList ≠ "hugosmp".toList)
        && payoutLine.test (plain message) && (parseSellEarning message).isSome) := rfl
  rw [hpays]
  unfold onChat
  generalize (sender.any fun name => name ≠ "" && toLowerCase name.toList ≠ "hugosmp".toList) =
    foreign
  generalize teleportSuccess message = teleported
  generalize payoutLine.test (plain message) = paid
  generalize (parseSellEarning message).isSome = earned
  generalize inventoryLocked.test (plain message) = locked
  cases foreign with
  | true => exact .of_menus rfl
  | false =>
      rw [if_neg (by decide)]
      have hteleport : menus (if teleported then { s.scheduleSneak with nextSneak := 0 } else s) =
          menus s := by
        cases teleported <;> rfl
      have hconfirm := (menus_confirmHome _ message).trans hteleport
      dsimp only
      generalize confirmHome _ message = t at hconfirm ⊢
      simp only [menus, Menus.mk.injEq] at hconfirm
      have hpaid : Passes (!false && paid && earned) s
          (if paid && earned then t.confirmPayout else t) := by
        cases hboth : paid && earned with
        | false => exact .of_menus (by simp [menus, hconfirm])
        | true =>
            have hpasses := confirmPayout_passes t
            refine ⟨(Drift.of_menus (by simp [menus, hconfirm])).trans hpasses.drift,
              .inr (.inr ⟨?_, ?_⟩)⟩
            · simpa using hboth
            · exact congrArg (Option.map Sell.confirm) hconfirm.1
      cases locked with
      | false => exact hpaid
      | true => exact ⟨.of_none rfl rfl hpaid.drift.game, .inl rfl⟩

theorem method_passes {i : Input} {f : Behaviors → Behaviors} (h : i.method = some f)
    (s : Behaviors) : Passes i.pays s (f s) := by
  cases i with
  | configure | spawned | tick | answer => simp [Input.method] at h
  | joining | transition =>
      obtain rfl := Option.some.inj h
      exact ⟨.of_none rfl rfl rfl, .inl rfl⟩
  | chat sender message =>
      obtain rfl := Option.some.inj h
      exact onChat_passes s sender message
  | clock now =>
      obtain rfl := Option.some.inj h
      exact .of_menus rfl
  | enqueue type text =>
      obtain rfl := Option.some.inj h
      apply Passes.of_menus
      simp only [enqueue]
      split_ifs <;> rfl
  | checkSneak =>
      obtain rfl := Option.some.inj h
      apply Passes.of_menus
      simp only [checkSneak]
      split_ifs <;> rfl
  | pause afterMs resumeMs =>
      obtain rfl := Option.some.inj h
      apply Passes.of_menus
      simp only [pause]
      split_ifs <;> rfl

theorem spawned_passes (s : Behaviors) : Passes false s (runCode s spawned).1 ∧
    ∀ w ∈ (runCode s spawned).2, Elsewhere w.call ∧ ∀ a, OffMenus (w.next a) := by
  refine ⟨⟨.of_none rfl rfl rfl, .inl rfl⟩, fun w hw => ?_⟩
  obtain rfl : _ = w := Option.some.inj hw
  refine ⟨trivial, fun a => ?_⟩
  cases a with
  | ok value => exact requestReturn_offMenus
  | error e => exact within_fail e

/-- What is known of a bot between its steps. -/
structure Trading (b : Scheduler) : Prop where
  apart : b.vars.sell = none ∨ b.vars.foreground = none
  round : ∀ w ∈ b.round, Drift w.asked b.vars ∧ ∃ g : Opening, g.state = w.since ∧
    w.Follows sales Closes g
  spawns : ∀ w ∈ b.spawns, Elsewhere w.call ∧ ∀ a, OffMenus (w.next a)

/-- What a step does to the sale, in the round or beside it. -/
inductive SaleStep (g : Opening) (paid : Bool) (s : Behaviors) (made : Option Waiting) : Prop where
  | round (hpaid : paid = false) (h : Piece g (made.map (·.call)) s)
  | aside (hsnapshot : g.snapshot = none) (hstamp : g.stamp = none)
      (hmade : made.all fun w => !w.call.transfers) (h : Passes paid g.state s)

/-- Only an answer to the round begins its code with a snapshot or a stamp. -/
theorem Scheduler.opening_cases (b : Scheduler) (i : Input) :
    (∃ t, b.Begins i t ∧ b.step i =
      ⟨(runCode b.fresh t).1, (runCode b.fresh t).2, b.spawns, (runCode b.fresh t).2⟩) ∨
      b.opening i = ⟨b.fresh, none, none⟩ := by
  cases i with
  | answer task answers =>
      cases task with
      | succ k => exact .inr rfl
      | zero =>
          cases hround : b.round with
          | none => exact .inr (by simp [opening, hround])
          | some w =>
              refine .inl ⟨_, .answer hround answers, ?_⟩
              simp only [step, Scheduler.answer, hround]
              rfl
  | _ => exact .inr rfl

theorem Scheduler.Begins.closes {b : Scheduler} (h : Trading b) {i : Input} {t : Code Unit}
    (ht : b.Begins i t) : i.pays = false ∧ (b.opening i).state = b.fresh ∧
      t.Follows sales Closes (b.opening i) b.fresh := by
  have hrests : Rests ⟨b.fresh, none, none⟩ b.fresh := ⟨rfl, h.apart, .inr ⟨rfl, rfl⟩⟩
  cases ht with
  | tick hround => exact ⟨rfl, rfl, tick_closes hrests⟩
  | configure hround config => exact ⟨rfl, rfl, configure_closes config hrests⟩
  | @answer w hround answers =>
      obtain ⟨hdrift, g, hg, hfollows⟩ := h.round w hround
      have hopening : b.opening (.answer 0 answers) =
          sales.next g w.call w.asked (answers w.call) b.fresh := by
        simp [opening, hround, sales, hg]
      rw [hopening]
      exact ⟨rfl, rfl, hfollows.2 (answers w.call) b.fresh (hdrift.trans (.of_menus rfl))⟩

theorem step_trading {b : Scheduler} (h : Trading b) (i : Input) : Trading (b.step i) ∧
    SaleStep (b.opening i) i.pays (b.step i).vars (b.step i).made := by
  have hround {t : Code Unit} (ht : b.Begins i t) :
      Trading ⟨(runCode b.fresh t).1, (runCode b.fresh t).2, b.spawns, (runCode b.fresh t).2⟩ ∧
        SaleStep (b.opening i) i.pays (runCode b.fresh t).1 (runCode b.fresh t).2 := by
    obtain ⟨hpays, hstate, hcode⟩ := ht.closes h
    obtain ⟨hnone, r, hcloses⟩ | ⟨w, hsome, hsince, hasked, hfollows⟩ := runCode_follows hcode
    · rw [hnone]
      exact ⟨⟨hcloses.apart, by simp, h.spawns⟩, .round hpays hcloses⟩
    · rw [hsome, ← hasked]
      refine ⟨⟨hfollows.1.apart, fun v hv => ?_, h.spawns⟩, .round hpays hfollows.1⟩
      obtain rfl : w = v := Option.some.inj hv
      exact ⟨.of_menus rfl, _, hstate.trans hsince.symm, hfollows⟩
  have hfresh : Drift b.vars b.fresh := .of_menus rfl
  have hbeside {s : Behaviors} (hs : Passes i.pays b.fresh s) :
    (s.sell = none ∨ s.foreground = none) ∧
      ∀ w ∈ b.round, Drift w.asked s ∧ ∃ g :
        Opening, g.state = w.since ∧ w.Follows sales Closes g := by
    refine ⟨hs.drift.apart h.apart, fun w hw => ?_⟩
    obtain ⟨hdrift, hg⟩ := h.round w hw
    exact ⟨(hdrift.trans hfresh).trans hs.drift, hg⟩
  obtain ⟨t, ht, hstep⟩ | hopening := b.opening_cases i
  · rw [hstep]
    exact hround ht
  have hmoves := b.step_moves i
  generalize b.step i = b' at hmoves
  cases hmoves with
  | round ht => exact hround ht
  | none =>
      rw [hopening]
      exact ⟨⟨h.apart, (hbeside (.of_menus rfl)).2, h.spawns⟩, .aside rfl rfl rfl (.of_menus rfl)⟩
  | method hf =>
      have hpasses := method_passes hf b.fresh
      rw [hopening]
      exact ⟨⟨(hbeside hpasses).1, (hbeside hpasses).2, h.spawns⟩, .aside rfl rfl rfl hpasses⟩
  | @beside t spawns ht =>
      have hcode : Passes i.pays b.fresh (runCode b.fresh t).1 ∧
          (∀ w ∈ (runCode b.fresh t).2, Elsewhere w.call ∧ ∀ a, OffMenus (w.next a)) ∧
          ∀ w ∈ spawns, Elsewhere w.call ∧ ∀ a, OffMenus (w.next a) := by
        cases ht with
        | spawned =>
            obtain ⟨hpasses, hmade⟩ := spawned_passes b.fresh
            exact ⟨hpasses, hmade, h.spawns⟩
        | @answer w k hk answers =>
            obtain ⟨hmenus, hmade⟩ := runCode_within ((h.spawns w (List.mem_of_getElem? hk)).2
              (answers w.call)) b.fresh
            exact ⟨.of_menus hmenus, hmade, fun v hv => h.spawns v (List.mem_of_mem_eraseIdx hv)⟩
      obtain ⟨hpasses, hmade, hspawns⟩ := hcode
      rw [hopening]
      refine ⟨⟨(hbeside hpasses).1, (hbeside hpasses).2, fun w hw => ?_⟩, .aside rfl rfl ?_ hpasses⟩
      · obtain hnew | hold := List.mem_append.mp hw
        · exact hmade w (by simpa using hnew)
        · exact hspawns w hold
      · generalize (runCode b.fresh t).2 = made at hmade
        cases made with
        | none => rfl
        | some w => simp [elsewhere_transfers (hmade w rfl).1]

/-! ### The log of a step -/

theorem SaleRecord.send_of_quiet (r : SaleRecord) (now : ℤ) (shown : List GameSlot)
    {c : Option GameCall} (hc : c.all fun c => !c.transfers) : r.send now shown c = r := by
  cases c with
  | none => rfl
  | some c =>
      cases c with
      | click menu slot action =>
          cases action with
          | transfer => simp [GameCall.transfers] at hc
          | _ => rfl
      | transferAll menu => simp [GameCall.transfers] at hc
      | _ => rfl

theorem SaleRecord.accept_counts (r : SaleRecord) (now : ℤ) (m : Option Sell.Message) :
    (r.accept now m).sent = r.sent ∧ (r.accept now m).batches = r.batches ∧
      (r.accept now m).captured = r.captured := by
  cases m with
  | none => exact ⟨rfl, rfl, rfl⟩
  | some m => cases m <;> exact ⟨rfl, rfl, rfl⟩

/-- A step that ends with no sale leaves the counts of the last one. -/
theorem SaleRecord.note_counts (r : SaleRecord) (g : Opening) (paid : Bool) {c : Option GameCall}
    (hc : c.all fun c => !c.transfers) : (r.note g paid none c).sent = r.sent ∧
      (r.note g paid none c).batches = r.batches ∧ (r.note g paid none c).captured =
        r.captured := by
  obtain ⟨hsent, hbatches, hcaptured⟩ :=
    (r.settle paid g.snapshot).accept_counts g.state.now g.stamp
  rw [note, send_of_quiet _ _ _ hc]
  refine ⟨hsent, hbatches, ?_⟩
  simp only [follow, Option.any_none, Bool.and_false, Bool.false_eq_true, if_false]
  exact hcaptured

/-- A sale that waits for a confirmation makes no call. -/
theorem Sell.Reads.free {inventory : GameInventory} {now : ℤ} {sale' : Sell} {c : GameCall}
    (h : sale.Reads all inventory now sale' (some c)) : sale.waits inventory = false := by
  cases h with
  | sending hall hfree haims hitem => exact hfree
  | sendingAll hall hfree haims hitems => exact hfree

/-- The record of the sale in progress, if there is one. -/
def Recorded (l : SaleLog) (s : Behaviors) : Prop :=
  ∀ sale ∈ s.sell, ∃ r ∈ l.record, Tracks s.game.transferAll r sale

theorem SaleLog.Fair.of_tracks {l : SaleLog} (hrash : l.rash = []) (hr : l.record = some r)
    (h : Tracks all r sale) : l.Fair := by
  refine ⟨fun r' hr' => ?_, fun r' hr' => ?_, hrash⟩
  · obtain rfl : r = r' := by simpa [hr] using hr'
    exact h.once
  · obtain rfl : r = r' := by simpa [hr] using hr'
    exact h.batches

theorem SaleLog.enter_rash {l : SaleLog} (h : l.rash = []) (g : Opening) (paid : Bool)
    (after : Option Sell) {made : Option Waiting} (hmade : made.all fun w => !w.call.transfers) :
    (l.enter g paid after made).rash = [] := by
  cases made with
  | none => simp [enter, h]
  | some w => simp_all [enter]

theorem SaleLog.enter_record {l : SaleLog} (hr : l.record = some r) {g : Opening}
    (hsell : g.state.sell = some sale) (paid : Bool) (after : Option Sell) (made : Option Waiting) :
    (l.enter g paid after made).record = some (r.note g paid after (made.map (·.call))) := by
  simp [enter, hr, hsell]

theorem all_map_call {made : Option Waiting} :
    ((made.map (·.call)).all fun c => !c.transfers) = made.all fun w => !w.call.transfers := by
  cases made <;> rfl

variable {l : SaleLog} {g : Opening} {paid : Bool} {s : Behaviors} {made : Option Waiting}

theorem SaleLog.Fair.enter_none (h : l.Fair) (hsell : s.sell = none)
    (hmade : made.all fun w => !w.call.transfers) : (l.enter g paid s.sell made).Fair := by
  have hrecord (r' : SaleRecord) (hr' : r' ∈ (l.enter g paid s.sell made).record) :
      ∃ r ∈ l.record, r'.sent = r.sent ∧ r'.batches = r.batches ∧ r'.captured = r.captured := by
    have hmap : l.record.map (·.note g paid none (made.map (·.call))) = some r' := by
      simpa [SaleLog.enter, hsell] using hr'
    obtain ⟨r, hr, rfl⟩ := Option.map_eq_some_iff.mp hmap
    exact ⟨r, hr, r.note_counts g paid (by rw [all_map_call]; exact hmade)⟩
  refine ⟨fun r' hr' => ?_, fun r' hr' => ?_, enter_rash h.patient g paid s.sell hmade⟩
  · obtain ⟨r, hr, hsent, -, hcaptured⟩ := hrecord r' hr'
    rw [hsent, hcaptured]
    exact h.once r hr
  · obtain ⟨r, hr, hsent, hbatches, -⟩ := hrecord r' hr'
    rw [hsent, hbatches]
    exact h.batch r hr

/-- A sale that neither reads nor sends, with a payout at most. -/
theorem Recorded.pass (h : l.Fair) (hrecorded : Recorded l g.state) (hsnapshot : g.snapshot = none)
    (hstamp : g.stamp = none) (hgame : s.game = g.state.game)
    (hmade : made.all fun w => !w.call.transfers)
    (hsell : s.sell = none ∨ s.sell = g.state.sell ∨
      paid = true ∧ s.sell = g.state.sell.map Sell.confirm) :
    (l.enter g paid s.sell made).Fair ∧ Recorded (l.enter g paid s.sell made) s := by
  cases hs : s.sell with
  | none =>
      refine ⟨?_, by simp [Recorded, hs]⟩
      rw [← hs]
      exact h.enter_none hs hmade
  | some sale' =>
      obtain ⟨sale, hsale, hpassed⟩ : ∃ sale, g.state.sell = some sale ∧
          (sale' = sale ∨ paid = true ∧ sale' = sale.confirm) := by
        obtain hnone | hsame | ⟨hpaid, hconfirm⟩ := hsell
        · simp [hs] at hnone
        · exact ⟨sale', hsame ▸ hs, .inl rfl⟩
        · obtain ⟨sale, hsale, rfl⟩ := Option.map_eq_some_iff.mp (hconfirm.symm.trans hs)
          exact ⟨sale, hsale, .inr ⟨hpaid, rfl⟩⟩
      obtain ⟨r, hr, htracks⟩ := hrecorded sale hsale
      have hrecord := SaleLog.enter_record hr hsale paid (some sale') made
      have hsettled : Tracks s.game.transferAll (r.settle paid none) sale' := by
        rw [hgame]
        obtain rfl | ⟨rfl, rfl⟩ := hpassed
        · exact htracks.settle paid none
        · exact htracks.confirm none
      have htargets : sale'.targets = sale.targets := by
        obtain rfl | ⟨-, rfl⟩ := hpassed
        · rfl
        · rfl
      have hnew : Tracks s.game.transferAll
        (r.note g paid (some sale') (made.map (·.call))) sale' := by
        rw [SaleRecord.note, SaleRecord.send_of_quiet _ _ _ (by rw [all_map_call]; exact hmade),
          hsnapshot, hstamp, hsale]
        refine hsettled.follow _ _ _ _ fun hnone => ?_
        simpa [htargets] using hnone
      refine ⟨.of_tracks (SaleLog.enter_rash h.patient g paid _ hmade) hrecord hnew, ?_⟩
      intro sale'' hsale''
      obtain rfl : sale' = sale'' := by simpa [hs] using hsale''
      exact ⟨_, hrecord, hnew⟩

theorem Recorded.trade (h : l.Fair) (hrecorded : Recorded l g.state)
    (hpiece : Piece g (made.map (·.call)) s) :
    (l.enter g false s.sell made).Fair ∧ Recorded (l.enter g false s.sell made) s := by
  have hrest {r : SaleRecord} {sale' : Sell} (hrash : (l.enter g false s.sell made).rash = [])
      (hs : s.sell = some sale') (hr : (l.enter g false s.sell made).record = some r)
      (hnew : Tracks s.game.transferAll r sale') :
      (l.enter g false s.sell made).Fair ∧ Recorded (l.enter g false s.sell made) s := by
    refine ⟨.of_tracks hrash hr hnew, fun sale'' hsale'' => ?_⟩
    obtain rfl : sale' = sale'' := by simpa [hs] using hsale''
    exact ⟨r, hr, hnew⟩
  cases hpiece.trades with
  | none hs hc =>
      rw [all_map_call] at hc
      exact ⟨h.enter_none hs hc, by simp [Recorded, hs]⟩
  | kept hold hsnapshot hstamp hs hc =>
      rw [all_map_call] at hc
      exact Recorded.pass h hrecorded hsnapshot hstamp hpiece.game hc
        (.inr (.inl (hs.trans hold.symm)))
  | @begun sale hold hs hsale hc =>
      rw [all_map_call] at hc
      refine hrest (SaleLog.enter_rash h.patient g false _ hc) hs ?_ (hsale ▸ Tracks.begun _ _ _)
      simp [SaleLog.enter, hold, hs]
  | @stamped sale m hold hsnapshot hstamp hs hc =>
      obtain rfl : made = none := by simpa using hc
      obtain ⟨r, hr, htracks⟩ := hrecorded sale hold
      refine hrest (SaleLog.enter_rash h.patient g false _ rfl) hs
        (SaleLog.enter_record hr hold false _ none) ?_
      have haccepted := (htracks.settle false none).accept g.state.now m
      rw [hpiece.game, hs, SaleRecord.note, hsnapshot, hstamp, hold]
      refine haccepted.follow _ _ _ _ fun hnone => ?_
      cases m <;> simpa [Sell.stamp] using hnone
  | @absent sale inventory hold hsnapshot hstamp hlate hlong hmenu hs hc =>
      obtain rfl : made = none := by simpa using hc
      obtain ⟨r, hr, htracks⟩ := hrecorded sale hold
      refine hrest (SaleLog.enter_rash h.patient g false _ rfl) hs
        (SaleLog.enter_record hr hold false _ none) ?_
      rw [hpiece.game, hs, SaleRecord.note, hsnapshot, hstamp, hold]
      refine (htracks.settle false (some inventory)).follow _ _ _ _ fun hnone => ?_
      simpa using hnone
  | @read sale sale' inventory hold hsnapshot hstamp hlate hlong hopen hreads hs =>
      obtain ⟨r, hr, htracks⟩ := hrecorded sale hold
      rw [hpiece.game] at hreads
      refine hrest ?_ hs (SaleLog.enter_record hr hold false _ made) ?_
      · cases made with
        | none => simp [SaleLog.enter, h.patient]
        | some w =>
            have hsettled := htracks.settled inventory (Sell.Reads.free hreads) false
            simp [SaleLog.enter, h.patient, hold, Option.mem_def.mp hr, hsnapshot, hsettled]
      · rw [hpiece.game, hs, SaleRecord.note, hsnapshot, hstamp, hold]
        exact htracks.read hreads

/-! ### Deadlines -/

/-- An open menu has an identity. -/
def Input.Named : Input → Prop
  | .answer _ answers => ∀ inventory, answers .inventory = .ok inventory →
      inventory.containerSlots ≠ [] → inventory.menuId ≠ ""
  | _ => True

/-- The record knows when the menu of the sale opened. -/
structure Timed (r : SaleRecord) (sale : Sell) : Prop where
  opened : r.opened = sale.opened
  closed : sale.menu = "" → sale.opened = none ∧ sale.pending = none

def TimedIn (l : SaleLog) (s : Behaviors) : Prop :=
  ∀ sale ∈ s.sell, ∀ r ∈ l.record, Timed r sale

theorem SaleRecord.note_opened (r : SaleRecord) (g : Opening) (paid : Bool) (after : Option Sell)
    (c : Option GameCall) : (r.note g paid after c).opened =
      if r.opened.isNone && after.any (·.opened.isSome) then some g.state.now else r.opened := by
  have haccept (r : SaleRecord) (now : ℤ) (m : Option Sell.Message) :
      (r.accept now m).opened = r.opened := by
    cases m with
    | none => rfl
    | some m => cases m <;> rfl
  have hsend (r : SaleRecord) (now : ℤ) (shown : List GameSlot) (c : Option GameCall) :
      (r.send now shown c).opened = r.opened := by
    unfold send
    split <;> rfl
  simp only [note, hsend, follow, haccept, settle]

/-- A sale that was bound before, or stays unbound. -/
theorem Timed.note {r : SaleRecord} {sale : Sell} (h : Timed r sale) (sale' : Sell)
    (hopened : sale'.opened = sale.opened) (hmenu : sale'.menu = sale.menu)
    (hpending : sale.pending = none → sale'.pending = none) (g : Opening) (paid : Bool)
    (c : Option GameCall) : Timed (r.note g paid (some sale') c) sale' := by
  refine ⟨?_, fun hnone => ?_⟩
  · rw [SaleRecord.note_opened, h.opened, hopened]
    cases hold : sale.opened <;> simp [hopened, hold]
  · obtain ⟨hclosed, hnothing⟩ := h.closed (hmenu ▸ hnone)
    exact ⟨hopened.trans hclosed, hpending hnothing⟩

/-- A sale reads a menu with an identity. -/
theorem Timed.read {r : SaleRecord} {sale sale' : Sell} (h : Timed r sale) {g : Opening}
    {inventory : GameInventory} (hnamed : inventory.menuId ≠ "") {c : Option GameCall}
    (hreads : sale.Reads all inventory g.state.now sale' c) :
    Timed (r.note g false (some sale') c) sale' := by
  have hbound : sale'.menu = inventory.menuId ∧
      sale'.opened = some (if sale.menu =
        "" then g.state.now else sale.opened.getD g.state.now) := by
    cases hreads <;> exact ⟨rfl, rfl⟩
  refine ⟨?_, fun hnone => absurd (hbound.1.symm.trans hnone) hnamed⟩
  rw [SaleRecord.note_opened, h.opened]
  by_cases hmenu : sale.menu = ""
  · simp [hmenu, (h.closed hmenu).1, hbound.2]
  · cases hopened : sale.opened <;> simp [hmenu, hopened, hbound.2]

theorem TimedIn.enter (h : TimedIn l g.state) (hrecorded : Recorded l g.state)
    (hnamed : ∀ inventory ∈ g.snapshot, inventory.containerSlots ≠ [] → inventory.menuId ≠ "")
    (hstep : SaleStep g paid s made) : TimedIn (l.enter g paid s.sell made) s := by
  have hsame {sale sale' : Sell} (hold : g.state.sell = some sale) (hs : s.sell = some sale')
      (hnote : ∀ r, Timed r sale → Timed (r.note g paid (some sale') (made.map (·.call))) sale') :
      TimedIn (l.enter g paid s.sell made) s := by
    intro sale'' hsale'' r' hr'
    obtain rfl : sale' = sale'' := by simpa [hs] using hsale''
    obtain ⟨r, hr, -⟩ := hrecorded sale hold
    rw [hs, SaleLog.enter_record hr hold] at hr'
    obtain rfl := Option.some.inj hr'
    exact hnote r (h sale hold r hr)
  cases hstep with
  | aside hsnapshot hstamp hmade hpasses =>
      cases hs : s.sell with
      | none => simp [TimedIn, hs]
      | some sale' =>
          rw [← hs]
          obtain hnone | heq | ⟨-, hconfirm⟩ := hpasses.sell
          · simp [hs] at hnone
          · exact hsame (heq ▸ hs) hs fun r hr => hr.note _ rfl rfl (fun hp => hp) g paid _
          · obtain ⟨sale, hsale, rfl⟩ := Option.map_eq_some_iff.mp (hconfirm.symm.trans hs)
            exact hsame hsale hs fun r hr =>
              hr.note sale.confirm rfl rfl (fun hp => by simp [Sell.confirm, hp]) g paid _
  | round hpaid hpiece =>
      subst hpaid
      cases hpiece.trades with
      | none hs hc => simp [TimedIn, hs]
      | kept hold hsnapshot hstamp hs hc =>
          exact hsame hold hs fun r hr => hr.note _ rfl rfl (fun hp => hp) g false _
      | @begun sale hold hs hsale hc =>
          intro sale'' hsale'' r hr
          obtain rfl : sale = sale'' := by simpa [hs] using hsale''
          obtain rfl : _ = r := by simpa [SaleLog.enter, hold, hs] using hr
          rw [hsale]
          exact ⟨rfl, fun _ => ⟨rfl, rfl⟩⟩
      | @stamped sale m hold hsnapshot hstamp hs hc =>
          refine hsame hold hs fun r hr => ?_
          cases m with
          | request =>
              exact hr.note (sale.stamp g.state.now .request) rfl rfl (fun hp => hp) g false _
          | transfer =>
              exact hr.note (sale.stamp g.state.now .transfer) rfl rfl
                (fun hp => by simp [Sell.stamp, hp]) g false _
      | absent hold hsnapshot hstamp hlate hlong hmenu hs hc =>
          exact hsame hold hs fun r hr => hr.note _ rfl rfl (fun hp => hp) g false _
      | read hold hsnapshot hstamp hlate hlong hopen hreads hs =>
          exact hsame hold hs fun r hr => hr.read (hnamed _ hsnapshot hopen) hreads

/-- A snapshot that finds the sale overdue ends it. -/
theorem overdue_ends (hstep : SaleStep g paid s made) {sale : Sell}
    (hold : g.state.sell = some sale)
    {inventory : GameInventory} (hsnapshot : g.snapshot = some inventory) {r : SaleRecord}
    (htracks : Tracks all r sale) (htimed : Timed r sale)
    (hover : r.Overdue inventory g.state.now) : s.sell = none := by
  have hintime (hlate : sale.opened = none → g.state.now - sale.requested < 10_000)
      (hlong : ∀ t ∈ sale.opened, g.state.now - t < 120_000) : ∃ sent,
      r.unconfirmed = some sent ∧ sent.items.all (unchangedIn inventory.slots) ∧
        5_000 ≤ g.state.now - sent.sentAt := by
    cases hover with
    | late h ht =>
        have := hlate (htimed.opened ▸ h)
        rw [htracks.requested] at ht
        omega
    | @long opened h ht =>
        have := hlong opened (htimed.opened ▸ h)
        omega
    | stuck h hsame ht => exact ⟨_, h, hsame, ht⟩
  cases hstep with
  | aside hnone => simp [hsnapshot] at hnone
  | round hpaid hpiece =>
      cases hpiece.trades with
      | none hs => exact hs
      | kept _ hnone => simp [hsnapshot] at hnone
      | begun hnone => simp [hold] at hnone
      | stamped _ hnone => simp [hsnapshot] at hnone
      | @absent sale' inventory' hold' _ _ hlate hlong hmenu =>
          obtain rfl : sale = sale' := Option.some.inj (hold.symm.trans hold')
          obtain ⟨sent, hsent, -, -⟩ := hintime hlate hlong
          obtain ⟨p, hp, -⟩ := htracks.unconfirmed sent hsent
          simp [(htimed.closed hmenu).2] at hp
      | @read sale' _ inventory' hold' hsnapshot' _ hlate hlong _ hreads =>
          obtain rfl : sale = sale' := Option.some.inj (hold.symm.trans hold')
          obtain rfl : inventory = inventory' := Option.some.inj (hsnapshot.symm.trans hsnapshot')
          obtain ⟨sent, hsent, hsame, ht⟩ := hintime hlate hlong
          have hwaits := htracks.waits hsent hsame
          obtain ⟨p, hp, -, hsentAt, -⟩ := htracks.unconfirmed sent hsent
          generalize made.map (·.call) = c at hreads
          cases hreads with
          | loading htargets => simp [(htracks.untouched htargets).2.2.1] at hsent
          | holding _ htime =>
              have := htime p hp
              omega
          | skipping _ hfree => simp [hwaits] at hfree
          | sending _ hfree => simp [hwaits] at hfree
          | sendingAll _ hfree => simp [hwaits] at hfree

/-! ### Every run -/

/-- A step in which the round reads a snapshot ends an overdue sale. -/
def EndsOverdue (p : Scheduler × SaleLog) (i : Input) : Prop :=
  p.1.vars.sell.isSome → ∀ inventory r, (p.1.opening i).snapshot = some inventory →
    p.2.record = some r → r.Overdue inventory p.1.vars.now → (p.1.step i).vars.sell = none

structure Booked (p : Scheduler × SaleLog) : Prop where
  trading : Trading p.1
  fair : p.2.Fair
  recorded : Recorded p.2 p.1.vars

theorem opening_state (b : Scheduler) (i : Input) : (b.opening i).state = b.fresh := by
  unfold Scheduler.opening
  split <;> rfl

theorem step_booked {p : Scheduler × SaleLog} (h : Booked p) (i : Input) :
    Booked (watchSales p i) := by
  obtain ⟨htrading, hstep⟩ := step_trading h.trading i
  have hrecorded : Recorded p.2 (p.1.opening i).state := by
    rw [opening_state]
    exact h.recorded
  have hnew : (p.2.note p.1 i (p.1.step i)).Fair ∧
      Recorded (p.2.note p.1 i (p.1.step i)) (p.1.step i).vars := by
    unfold SaleLog.note
    cases hstep with
    | round hpaid hpiece =>
        rw [hpaid]
        exact Recorded.trade h.fair hrecorded hpiece
    | aside hsnapshot hstamp hmade hpasses =>
        exact Recorded.pass h.fair hrecorded hsnapshot hstamp hpasses.drift.game hmade hpasses.sell
  exact ⟨htrading, hnew.1, hnew.2⟩

theorem opening_named {i : Input} (h : i.Named) (b : Scheduler) :
    ∀ inventory ∈ (b.opening i).snapshot, inventory.containerSlots ≠ [] →
      inventory.menuId ≠ "" := by
  intro inventory hmem
  unfold Scheduler.opening at hmem
  split at hmem
  · rename_i answers w _
    obtain ⟨c, next, since, asked⟩ := w
    cases c with
    | inventory =>
        cases hanswer : answers .inventory with
        | ok shown =>
            obtain rfl : shown = inventory := by simpa [snapshotOf, hanswer] using hmem
            exact h shown hanswer
        | error e => simp [snapshotOf, hanswer] at hmem
    | _ => simp [snapshotOf] at hmem
  · simp at hmem

theorem step_timed {p : Scheduler × SaleLog} (h : Booked p) (htimed : TimedIn p.2 p.1.vars)
    {i : Input}
    (hnamed : i.Named) :
    TimedIn (watchSales p i).2 (watchSales p i).1.vars ∧ EndsOverdue p i := by
  obtain ⟨-, hstep⟩ := step_trading h.trading i
  have hstate := opening_state p.1 i
  have hrecorded : Recorded p.2 (p.1.opening i).state := by
    rw [hstate]
    exact h.recorded
  have hbefore : TimedIn p.2 (p.1.opening i).state := by
    rw [hstate]
    exact htimed
  refine ⟨hbefore.enter hrecorded (opening_named hnamed p.1) hstep, fun hsome => ?_⟩
  intro inventory r hsnapshot hr hover
  obtain ⟨sale, hsale⟩ := Option.isSome_iff_exists.mp hsome
  have hold : (p.1.opening i).state.sell = some sale := by
    rw [hstate]
    exact hsale
  obtain ⟨r', hr', htracks⟩ := hrecorded sale hold
  obtain rfl : r = r' := Option.some.inj (hr.symm.trans hr')
  refine overdue_ends hstep hold hsnapshot htracks (hbefore sale hold r hr) ?_
  rw [hstate]
  exact hover

/-- Whatever the order of snapshots, results of clicks, payouts, ticks and all other inputs:
a sale sends each slot it captured once at most, and no transfer before the last one is
confirmed. If open menus have identities, the first snapshot that a tick reads 10 s after a
request without a menu, 5 s after an unconfirmed transfer or 120 s after the menu opened
ends the sale. -/
theorem sales_end (config : BehaviorConfig) (game : GameGateway) (letterOrNumber : Char → Bool)
    (is : List Input) :
    Along watchSales (fun p => p.2.Fair) (.init config game letterOrNumber, {}) is ∧
      ((∀ i ∈ is, i.Named) →
        Meets watchSales EndsOverdue (.init config game letterOrNumber, {}) is) := by
  have hbooked : Booked (.init config game letterOrNumber, {}) := by
    refine ⟨⟨.inl rfl, ?_, ?_⟩, ⟨?_, ?_, rfl⟩, ?_⟩
    · simp [Scheduler.init]
    · simp [Scheduler.init]
    · simp
    · simp
    · simp [Recorded, Scheduler.init, init]
  constructor
  · have hrun : Along watchSales Booked (.init config game letterOrNumber, {}) is :=
      along_of_invariant (P := Booked) (fun p i hp => step_booked hp i) hbooked is
    exact hrun.mono fun p hp => hp.fair
  · intro hnamed
    have htimed : TimedIn {} (Scheduler.init config game letterOrNumber).vars := by simp [TimedIn]
    refine meets_of_preserved (P := fun p => Booked p ∧ TimedIn p.2 p.1.vars)
      (fun p i hp hi => ?_) ⟨hbooked, htimed⟩ (meets_of_forall_mem hnamed)
    obtain ⟨hnext, hends⟩ := step_timed hp.1 hp.2 hi
    exact ⟨⟨step_booked hp.1 i, hnext⟩, hends⟩

/-- A player without an open menu. -/
def besideMenus : List Input :=
  [.spawned, .answer 1 accepting, .clock 2000, .tick, .answer 0 accepting, .answer 0 accepting,
    .clock 12_000, .tick, .answer 0 accepting]

/-- A sale whose menu never opens. -/
theorem sales_end_late :
    Along watchSales (fun p => p.2.Fair)
      (.init { autosellEnabled := some true } {} Char.isAlphanum, {}) besideMenus ∧
      Meets watchSales EndsOverdue (.init { autosellEnabled := some true } {} Char.isAlphanum, {})
        besideMenus := by
  obtain ⟨hfair, hends⟩ := sales_end { autosellEnabled := some true } {} Char.isAlphanum besideMenus
  refine ⟨hfair, hends fun i hi => ?_⟩
  have hnamed : ∀ task, Input.Named (.answer task accepting) := by
    intro task inventory hinventory
    obtain rfl : _ = inventory := Except.ok.inj hinventory
    simp
  simp only [besideMenus, List.mem_cons, List.not_mem_nil, or_false] at hi
  rcases hi with rfl | rfl | rfl | rfl | rfl | rfl | rfl | rfl | rfl
  all_goals first | trivial | exact hnamed _

example : ((run watchSales (.init { autosellEnabled := some true } {} Char.isAlphanum, {})
    besideMenus.dropLast).1.vars.sell.map (·.requested)) = some 2000 := by decide +kernel

end AfkClient.Behaviors

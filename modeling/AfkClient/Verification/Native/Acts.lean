import AfkClient.Model.NativeAutoSell
import Mathlib.Logic.Relation

/-! What a game tick of the automatic selling can do. A tick is a sequence of acts, also
when an exception ends it; each act is given with what the code checked before it. -/

namespace AfkClient.Native

open Method

/-! ### Primitives -/

section Primitives

variable {Q : Unit → Thread → Prop} {E : Thrown → Thread → Prop} {th : Thread}

theorem wp_call (hQ : ∀ fault, Q () { th with fault }) (hE : E .game th) : wp call Q E th := by
  obtain ⟨b, fault⟩ := th
  simp only [call, wp_bind, wp_get]
  cases fault with
  | none => exact hQ none
  | some n =>
      cases n with
      | zero => exact hE
      | succ n => exact hQ (some n)

@[simp] theorem wp_change (f : Bot → Bot) :
    wp (change f) Q E th ↔ Q () { th with bot := f th.bot } := Iff.rfl

@[simp] theorem wp_ofExcept_ok {α : Type} {Q : α → Thread → Prop} (a : α) :
    wp (ofExcept (.ok a)) Q E th ↔ Q a th := Iff.rfl

@[simp] theorem wp_ofExcept_error {α : Type} {Q : α → Thread → Prop} (e : Thrown) :
    wp (ofExcept (.error e)) Q E th ↔ E e th := Iff.rfl

@[simp] theorem Bot.edit_st (b : Bot) (f : SaleState → SaleState) : (b.edit f).st = f b.st := rfl

@[simp] theorem Bot.edit_mc (b : Bot) (f : SaleState → SaleState) : (b.edit f).mc = b.mc := rfl

@[simp] theorem Bot.edit_log (b : Bot) (f : SaleState → SaleState) : (b.edit f).log = b.log := rfl

@[simp] theorem Bot.st_some (b : Bot) (st : SaleState) : Bot.st { b with state := some st } = st := rfl

@[simp] theorem Bot.elapse_st (b : Bot) (n : ℕ) : (b.elapse n).st = b.st := rfl

@[simp] theorem Bot.elapse_log (b : Bot) (n : ℕ) : (b.elapse n).log = b.log := rfl

@[simp] theorem Bot.record_st (b : Bot) (e : SaleEvent) : (b.record e).st = b.st := rfl

@[simp] theorem Bot.record_mc (b : Bot) (e : SaleEvent) : (b.record e).mc = b.mc := rfl

@[simp] theorem Bot.record_log (b : Bot) (e : SaleEvent) : (b.record e).log = b.log ++ [e] := rfl

end Primitives

/-! ### Acts -/

/-- The menu is the player's container and its screen is shown. -/
def Minecraft.Showing (mc : Minecraft) (menu : Menu) : Prop :=
  mc.containerMenu = some menu ∧ ∃ title, mc.screen = some (.container title)

/-- A change beside the sale that is bound. -/
structure SaleState.Beside (st st' : SaleState) : Prop where
  sellingMenu : st'.sellingMenu = st.sellingMenu
  nextSlot : st'.nextSlot = st.nextSlot
  transfers : st'.transfers = st.transfers
  contentMenu : st'.contentMenu = st.contentMenu
  contentReady : st'.contentReady = st.contentReady
  requested : st'.requested = st.requested
  waiting : st'.waiting → st.waiting

/-- The sale that was bound is given up. -/
structure SaleState.Releases (st st' : SaleState) : Prop where
  sellingMenu : st'.sellingMenu = none
  nextSlot : st'.nextSlot = st.nextSlot
  transfers : st'.transfers = st.transfers ∨ st'.transfers = {}
  contentMenu : st'.contentMenu = st.contentMenu
  contentReady : st'.contentReady = st.contentReady
  requested : st'.requested = st.requested
  waiting : st'.waiting → st.waiting

/-- The menu is bound and shown, has a sale title, and its content is there. -/
structure Bot.Ready (b : Bot) (menu : Menu) : Prop where
  bound : b.st.sellingMenu = some menu
  current : b.mc.containerMenu = some menu
  titled : ∃ title, b.mc.screen = some (.container title) ∧ nativeSaleTitle (plainText title)
  content : b.st.contentMenu = menu.containerId
  ready : b.st.contentReady

def SaleState.visit (st : SaleState) (index : ℕ) : SaleState := { st with nextSlot := index + 1 }

/-- One act of a tick; those of the transfer loop only where `moving`. -/
inductive Act (now : ℤ) (manual : Bool) : Bool → Bot → Bot → Prop where
  | beside {moving b st} (h : b.st.Beside st) : Act now manual moving b { b with state := some st }
  | elapse {moving b} (n : ℕ) : Act now manual moving b (b.elapse n)
  | close {moving b menu} (hcurrent : b.mc.containerMenu = some menu)
      (hbound : b.st.sellingMenu = some menu) : Act now manual moving b (b.closeContainer manual)
  | release {moving b st} (hleft : ∀ menu, b.st.sellingMenu = some menu → ¬ b.mc.Showing menu)
      (h : b.st.Releases st) : Act now manual moving b { b with state := some st }
  | bind {moving b menu title} (hcurrent : b.mc.containerMenu = some menu)
      (hscreen : b.mc.screen = some (.container title)) (htitle : nativeSaleTitle (plainText title))
      (hwaiting : b.st.waiting) (hnew : b.st.sellingMenu ≠ some menu)
      (hrecent : now - b.st.requested < 15000) (hmanual : manual = false) :
      Act now manual moving b (b.edit (·.bindMenu menu))
  | ask {moving b} (hscreen : b.mc.screen = none) (hbound : b.st.sellingMenu = none) (next : ℤ) :
      Act now manual moving b
        (b.edit fun st => { st with requested := now, waiting := true, next })
  | say {moving b event} (h : ∃ text, event = .command text ∨ event = .chat text) :
      Act now manual moving b (b.record event)
  | visit {b} : Act now manual true b (b.edit fun st => st.visit st.nextSlot)
  | reserve {b transfers} (h : b.st.transfers.send b.st.nextSlot now = .ok transfers)
      (before : List (ℕ × Stack)) : Act now manual true b
        (b.edit fun st => { st.visit st.nextSlot with transfers, beforeTransfer := before })
  | move {b menu transfers slot moment} (h : b.st.transfers.send b.st.nextSlot now = .ok transfers)
      (before : List (ℕ × Stack)) (hready : b.Ready menu) (hmanual : manual = false)
      (hslot : slot.ofInventory ∧ slot.active ∧ slot.item.isSome)
      (hmoment : moment = ⟨some menu, some menu, b.mc.screen, b.mc.received, slot, manual⟩) :
      Act now manual true b
        ((b.edit fun st => { st.visit st.nextSlot with transfers, beforeTransfer := before }).record
          (.quickMove menu b.st.nextSlot moment))

abbrev Acts (now : ℤ) (manual moving : Bool) : Bot → Bot → Prop :=
  Relation.ReflTransGen (Act now manual moving)

variable {now : ℤ} {manual moving : Bool} {b b' : Bot}

theorem Act.widen (h : Act now manual moving b b') : Act now manual true b b' := by
  cases h with
  | beside h => exact .beside h
  | elapse n => exact .elapse n
  | close hcurrent hbound => exact .close hcurrent hbound
  | release hleft h => exact .release hleft h
  | bind hcurrent hscreen htitle hwaiting hnew hrecent hmanual =>
      exact .bind hcurrent hscreen htitle hwaiting hnew hrecent hmanual
  | ask hscreen hbound next => exact .ask hscreen hbound next
  | say h => exact .say h
  | visit => exact .visit
  | reserve h before => exact .reserve h before
  | move h before hready hmanual hslot hmoment => exact .move h before hready hmanual hslot hmoment

theorem Acts.widen (h : Acts now manual moving b b') : Acts now manual true b b' :=
  Relation.ReflTransGen.mono (fun _ _ => Act.widen) _ _ h

/-- What a kind of act keeps, a sequence of them keeps. -/
theorem Acts.keeps {P : Bot → Prop} (hP : ∀ b b', P b → Act now manual moving b b' → P b')
    (h : Acts now manual moving b b') (hb : P b) : P b' := by
  induction h with
  | refl => exact hb
  | tail _ hact ih => exact hP _ _ ih hact

/-! ### Code that acts -/

/-- Why a tick was left: the game threw, or the window refused a slot. -/
def Explained (now : ℤ) (manual moving : Bool) (b : Bot) (e : Thrown) : Prop :=
  e = .game ∨ ∃ b', Acts now manual moving b b' ∧ b'.st.transfers.canSend ∧
    b'.st.transfers.send b'.st.nextSlot now = .error e

/-- The code acts, until it returns with `Q` or is left. -/
def Does {α : Type} (now : ℤ) (manual moving : Bool) (m : Code α) (Q : α → Bot → Prop)
    (th : Thread) : Prop :=
  wp m (fun a th' => Acts now manual moving th.bot th'.bot ∧ Q a th'.bot)
    (fun e th' => Acts now manual moving th.bot th'.bot ∧ Explained now manual moving th.bot e) th

namespace Does

variable {α β : Type} {m : Code β} {f : β → Code α} {Q Q' : α → Bot → Prop} {R : β → Bot → Prop}
  {P : Unit → Bot → Prop} {th : Thread}

theorem pure {a : α} (h : Q a th.bot) : Does now manual moving (Pure.pure a) Q th := ⟨.refl, h⟩

theorem bind (h : Does now manual moving m R th)
    (hf : ∀ a th', R a th'.bot → Does now manual moving (f a) Q th') :
    Does now manual moving (m >>= f) Q th := by
  refine wp.bind h (fun a th' hm => ?_) fun e th' hm => hm
  refine (hf a th' hm.2).mono (fun b th'' hb => ⟨hm.1.trans hb.1, hb.2⟩) ?_
  rintro e th'' ⟨hacts, rfl | ⟨b₁, hb₁, hsend⟩⟩
  · exact ⟨hm.1.trans hacts, .inl rfl⟩
  · exact ⟨hm.1.trans hacts, .inr ⟨b₁, hm.1.trans hb₁, hsend⟩⟩

theorem mono {m : Code α} (h : Does now manual moving m Q th) (hQ : ∀ a b, Q a b → Q' a b) :
    Does now manual moving m Q' th :=
  wp.mono h (fun a _ ha => ⟨ha.1, hQ a _ ha.2⟩) fun _ _ he => he

theorem get {f : Thread → Code α} (h : Does now manual moving (f th) Q th) :
    Does now manual moving (MonadState.get >>= f) Q th := h

theorem ite {c : Prop} [Decidable c] {m n : Code α} (hm : c → Does now manual moving m Q th)
    (hn : ¬ c → Does now manual moving n Q th) : Does now manual moving (if c then m else n) Q th :=
  wp_ite.mpr ⟨hm, hn⟩

theorem when {c : Prop} [Decidable c] {m : Code Unit} (hm : c → Does now manual moving m P th)
    (hn : ¬ c → P () th.bot) : Does now manual moving (Method.when c m) P th :=
  ite hm fun hc => pure (hn hc)

theorem call (h : P () th.bot) : Does now manual moving call P th :=
  wp_call (fun _ => ⟨.refl, h⟩) ⟨.refl, .inl rfl⟩

theorem change {f : Bot → Bot} (hact : Act now manual moving th.bot (f th.bot))
    (h : P () (f th.bot)) : Does now manual moving (Native.change f) P th :=
  ⟨.single hact, h⟩

theorem orThrow {x : Option α} (h : ∀ a, x = some a → Q a th.bot) :
    Does now manual moving (Native.orThrow x) Q th := by
  cases x with
  | none => exact ⟨.refl, .inl rfl⟩
  | some a => exact ⟨.refl, h a rfl⟩

theorem widen {m : Code α} (h : Does now manual moving m Q th) : Does now manual true m Q th := by
  refine wp.mono h (fun a _ ha => ⟨ha.1.widen, ha.2⟩) ?_
  rintro e th' ⟨hacts, rfl | ⟨b₁, hb₁, hsend⟩⟩
  · exact ⟨hacts.widen, .inl rfl⟩
  · exact ⟨hacts.widen, .inr ⟨b₁, hb₁.widen, hsend⟩⟩

end Does

/-! ### The stages of a tick -/

variable {th : Thread}

theorem closeContainer_does {menu : Menu} (hcurrent : th.bot.mc.containerMenu = some menu)
    (hbound : th.bot.st.sellingMenu = some menu) :
    Does now manual moving (closeContainer manual)
      (fun _ b => b.st = th.bot.st ∧ b.mc.screen = none) th := by
  have hst : (th.bot.closeContainer manual).st = th.bot.st := by
    simp [Bot.closeContainer, hcurrent, Bot.st, Bot.record]
  have hscreen : (th.bot.closeContainer manual).mc.screen = none := by
    simp [Bot.closeContainer, hcurrent, Minecraft.closeContainer]
  refine Does.bind (R := fun _ b => b = th.bot) (.call rfl) ?_
  rintro ⟨⟩ th' hth'
  refine Does.bind (R := fun _ b => b = th.bot.closeContainer manual) (.change ?_ ?_) ?_
  · exact hth' ▸ .close hcurrent hbound
  · rw [hth']
  · rintro ⟨⟩ th'' hth''
    exact .call (by rw [hth'']; exact ⟨hst, hscreen⟩)

theorem cancel_does (elapsed : ℕ) :
    Does now manual moving (cancel manual elapsed) (fun _ _ => True) th := by
  have hleft : ∀ b : Bot, (b.st = th.bot.st ∧ ∀ menu, th.bot.st.sellingMenu = some menu →
      ¬ b.mc.Showing menu) → ∀ m, b.st.sellingMenu = some m → ¬ b.mc.Showing m := by
    rintro b ⟨hst, h⟩ m hm
    exact h m (hst ▸ hm)
  refine Does.get ?_
  refine Does.bind (R := fun _ b => b.st = th.bot.st ∧ ∀ menu, th.bot.st.sellingMenu = some menu →
    ¬ b.mc.Showing menu) (.when ?_ ?_) ?_
  · rintro ⟨hsome, hcurrent⟩
    obtain ⟨menu, hmenu⟩ := Option.isSome_iff_exists.mp hsome
    refine (closeContainer_does (hcurrent.trans hmenu) hmenu).mono fun _ b hb => ⟨hb.1, ?_⟩
    rintro menu' - ⟨-, title, htitle⟩
    cases hb.2.symm.trans htitle
  · intro hnot
    refine ⟨rfl, fun menu hmenu hshows => hnot ⟨by simp [hmenu], ?_⟩⟩
    rw [hshows.1, hmenu]
  rintro ⟨⟩ th₁ h₁
  refine Does.bind (R := fun _ _ => True) (.change (.release (hleft _ h₁) ?_) trivial) ?_
  · exact ⟨rfl, rfl, .inr rfl, rfl, rfl, rfl, id⟩
  rintro ⟨⟩ th₂ -
  refine Does.bind (R := fun _ _ => True) (.change (.elapse elapsed) trivial) ?_
  rintro ⟨⟩ th₃ -
  refine Does.get (.when (fun _ => .change (.beside ?_) trivial) fun _ => trivial)
  exact ⟨rfl, rfl, rfl, rfl, rfl, rfl, nofun⟩

theorem edit_does {f : SaleState → SaleState} (h : th.bot.st.Beside (f th.bot.st)) :
    Does now manual moving (edit f) (fun _ b => b = th.bot.edit f) th :=
  .change (.beside h) rfl

theorem configure_does (gson : String → Option SaleConfig) (settings : Settings) :
    Does now manual moving (configure gson settings now) (fun _ _ => True) th := by
  refine Does.get (.when (fun _ => ?_) fun _ => trivial)
  refine Does.bind (edit_does ⟨rfl, rfl, rfl, rfl, rfl, rfl, nofun⟩) ?_
  rintro ⟨⟩ th₁ -
  refine .when (fun _ => ?_) fun _ => trivial
  refine Does.bind (R := fun _ _ => True) (.orThrow fun _ _ => trivial) fun json th₂ _ => ?_
  refine Does.bind (R := fun _ _ => True) (.orThrow fun _ _ => trivial) fun enabled th₃ _ => ?_
  refine Does.bind (edit_does ⟨rfl, rfl, rfl, rfl, rfl, rfl, id⟩) fun _ th₄ _ => ?_
  refine Does.bind (R := fun _ _ => True) (.orThrow fun _ _ => trivial) fun interval th₅ _ => ?_
  refine Does.bind (edit_does ⟨rfl, rfl, rfl, rfl, rfl, rfl, id⟩) fun _ th₆ _ => ?_
  refine Does.bind (R := fun _ _ => True) (.orThrow fun _ _ => trivial) fun command th₇ _ => ?_
  exact (edit_does ⟨rfl, rfl, rfl, rfl, rfl, rfl, id⟩).mono fun _ _ _ => trivial

theorem relocate_does {t : Tick} (player level : ℤ) :
    Does now (t.manual now) moving (relocate t player level now) (fun _ _ => True) th := by
  refine Does.get ?_
  refine Does.bind (edit_does ⟨rfl, rfl, rfl, rfl, rfl, rfl, id⟩) fun _ th₁ _ => ?_
  refine .when (fun _ => ?_) fun _ => trivial
  refine Does.bind (edit_does ⟨rfl, rfl, rfl, rfl, rfl, rfl, id⟩) fun _ th₂ _ => ?_
  exact cancel_does t.beforeCancel

/-- The gate is closed during a manual window. -/
theorem blocked_does {t : Tick} {settings : Settings} (hsettings : t.settings = some settings) :
    Does now manual moving (blocked settings now)
      (fun closed b => b = th.bot ∧ (closed = false → t.manual now = false)) th := by
  refine Does.get (.ite (fun _ => .pure ⟨rfl, nofun⟩) fun _ => ?_)
  refine Does.bind (R := fun _ b => b = th.bot) ?_ ?_
  · unfold homePending
    cases settings "sell-home-pending" with
    | none => exact .pure rfl
    | some element => exact .orThrow fun _ _ => rfl
  · intro pending th₁ h₁
    refine .pure ⟨h₁, fun hopen => ?_⟩
    simp only [Bool.or_eq_false_iff] at hopen
    simpa [Tick.manual, hsettings] using hopen.1.1.2

theorem reject_does {t : Tick} :
    Does now (t.manual now) moving (reject t now) (fun next _ => next = .leave) th := by
  refine Does.bind (edit_does ⟨rfl, rfl, rfl, rfl, rfl, rfl, id⟩) fun _ th₁ _ => ?_
  exact Does.bind (cancel_does t.beforeSecondCancel) fun _ th₂ _ => .pure rfl

/-- Where the transfers begin, the menu is ready for them. -/
theorem container_does {t : Tick} {menu : Menu} {title : List Char}
    (hopen : t.manual now = false) (hcurrent : th.bot.mc.containerMenu = some menu)
    (hscreen : th.bot.mc.screen = some (.container title)) :
    Does now (t.manual now) moving (container t now menu title)
      (fun next b => next = .leave ∨ next = .transfer menu ∧ b.Ready menu) th := by
  refine Does.bind (R := fun _ b => b = th.bot) (.call rfl) fun _ th₁ h₁ => Does.get ?_
  refine .ite (fun _ => .pure (.inl rfl)) fun htitle => ?_
  refine .ite (fun _ => .pure (.inl rfl)) fun howner => ?_
  refine .ite (fun _ => reject_does.mono fun _ _ h => .inl h) fun hrecent => ?_
  refine Does.bind (R := fun _ b => b.mc = th.bot.mc ∧ b.st.sellingMenu = some menu) ?_ ?_
  · refine .when (fun hnew => .change ?_ ⟨by rw [Bot.edit_mc, h₁], rfl⟩) fun hnew => ?_
    · rw [h₁] at hnew howner hrecent ⊢
      refine .bind hcurrent hscreen (by simpa using htitle) ?_ hnew (by omega) hopen
      simpa [hnew] using howner
    · exact ⟨by rw [h₁], not_not.mp hnew⟩
  · rintro ⟨⟩ th₂ ⟨hmc, hbound⟩
    refine Does.get (.ite (fun _ => .pure (.inl rfl)) fun hcontent => ?_)
    refine .ite (fun _ => reject_does.mono fun _ _ h => .inl h) fun _ => .pure (.inr ⟨rfl, ?_⟩)
    simp only [Bool.or_eq_true, decide_eq_true_eq, Bool.not_eq_true', not_or, not_not,
      Bool.not_eq_false] at hcontent
    exact ⟨hbound, by rw [hmc, hcurrent], ⟨title, by rw [hmc, hscreen], by simpa using htitle⟩,
      hcontent.1, hcontent.2⟩

/-- What holds where a tick goes on. -/
def Approached (t : Tick) (now : ℤ) (next : Next) (b : Bot) : Prop :=
  match next with
  | .leave => True
  | .transfer menu => b.Ready menu ∧ t.manual now = false
  | .request => t.manual now = false ∧ ∀ menu, ¬ b.mc.Showing menu

theorem approach_does (gson : String → Option SaleConfig) (t : Tick)
    (hnow : now = th.bot.mc.clock) :
    Does now (t.manual now) moving (approach gson t) (Approached t now) th := by
  refine Does.bind (R := fun _ b => b = th.bot) (.call rfl) fun _ th₁ h₁ => ?_
  refine Does.get ?_
  dsimp only
  rw [h₁, ← hnow]
  split
  · rename_i player level settings _ _ _ hsettings
    refine Does.bind (edit_does ⟨rfl, rfl, rfl, rfl, rfl, rfl, id⟩) fun _ th₃ _ => ?_
    refine Does.bind (R := fun _ _ => True) (.call trivial) fun _ th₄ _ => ?_
    refine Does.bind (configure_does gson settings) fun _ th₅ _ => ?_
    refine Does.bind (relocate_does player.hash level) fun _ th₆ _ => ?_
    refine Does.bind (blocked_does hsettings) ?_
    rintro closed th₇ ⟨-, hopen⟩
    refine .ite (fun _ => ?_) fun hclosed => Does.get ?_
    · refine Does.bind (cancel_does _) fun _ th₈ _ => ?_
      exact Does.bind (edit_does ⟨rfl, rfl, rfl, rfl, rfl, rfl, id⟩) fun _ th₉ _ => .pure trivial
    · have hmanual := hopen (by simpa using hclosed)
      split
      · rename_i title menu hscreen hcurrent
        refine (container_does hmanual hcurrent hscreen).mono ?_
        rintro next b (rfl | ⟨rfl, hready⟩)
        · trivial
        · exact ⟨hready, hmanual⟩
      · rename_i hnone
        exact .pure ⟨hmanual, fun menu hshows => hnone _ _ hshows.2.choose_spec hshows.1⟩
  · exact .pure trivial

/-- A visit that moves a stack is one act, unless the game throws in it. -/
theorem visit_does {menu : Menu} {index : ℕ} {slot : Slot} (hready : th.bot.Ready menu)
    (hcursor : th.bot.st.nextSlot = index) (hsend : th.bot.st.transfers.canSend)
    (hmanual : manual = false) :
    Does now manual true (visit menu now manual index slot)
      (fun _ b => b.Ready menu ∧ b.st.nextSlot = index + 1) th := by
  subst hcursor
  have hvisit : Acts now manual true th.bot (th.bot.edit fun st => st.visit st.nextSlot) :=
    .single .visit
  unfold Does visit
  simp only [wp_bind, edit, wp_change]
  refine wp_call (fun fault => ?_) ⟨hvisit, .inl rfl⟩
  split
  · rename_i stack hslot hitem
    have hslot' : slot.ofInventory ∧ slot.active ∧ slot.item.isSome := by
      simpa [hitem] using hslot
    simp only [quickMove, edit, wp_bind, wp_change, wp_get, Bot.edit_st]
    cases h : th.bot.st.transfers.send th.bot.st.nextSlot now with
    | error e =>
        rw [wp_ofExcept_error]
        refine ⟨hvisit.tail (.beside ?_), .inr ⟨th.bot, .refl, hsend, h⟩⟩
        exact ⟨rfl, rfl, rfl, rfl, rfl, rfl, id⟩
    | ok transfers =>
        simp only [wp_ofExcept_ok, wp_bind, wp_change]
        have hmoved := Act.move h ((th.bot.st.nextSlot, stack) ::
          th.bot.st.beforeTransfer.filter (·.1 ≠ th.bot.st.nextSlot)) hready hmanual hslot' rfl
        have hmoment : (⟨th.bot.st.sellingMenu, th.bot.mc.containerMenu, th.bot.mc.screen,
            th.bot.mc.received, slot, manual⟩ : Moment) =
            ⟨some menu, some menu, th.bot.mc.screen, th.bot.mc.received, slot, manual⟩ := by
          rw [hready.bound, hready.current]
        rw [← hmoment] at hmoved
        refine wp_call (fun fault => ?_) ⟨.single (.reserve h _), .inl rfl⟩
        refine wp_call (fun fault => ?_) ⟨.single hmoved, .inl rfl⟩
        refine (wp_pure _).mpr ⟨.single hmoved, ?_, rfl⟩
        exact ⟨hready.bound, hready.current, hready.titled, hready.content, hready.ready⟩
  · refine (wp_pure _).mpr ⟨hvisit, ?_, rfl⟩
    exact ⟨hready.bound, hready.current, hready.titled, hready.content, hready.ready⟩

theorem transfer_does {menu : Menu} {index sent : ℕ} {slots : List Slot}
    (hready : th.bot.Ready menu) (hcursor : th.bot.st.nextSlot = index) (hmanual : manual = false) :
    Does now manual true (transfer menu now manual index slots sent) (fun _ b => b.Ready menu) th := by
  induction slots generalizing th index sent with
  | nil => exact .pure hready
  | cons slot rest ih =>
      refine Does.get (.when (fun hloop => ?_) fun _ => hready)
      refine Does.bind (visit_does hready hcursor hloop.2.1 hmanual) fun moved th' h' => ?_
      exact ih h'.1 h'.2

theorem complete_does {t : Tick} {menu : Menu} (hready : th.bot.Ready menu) :
    Does now manual moving (complete t menu manual)
      (fun next b => next = .leave ∨ next = .request ∧ ∀ menu, ¬ b.mc.Showing menu) th := by
  refine Does.get (.ite (fun _ => .pure (.inl rfl)) fun _ => ?_)
  refine Does.bind (R := fun _ b => b.mc.screen = none) ?_ fun _ th₁ h₁ => ?_
  · refine .when (fun _ => ?_) fun hnot => absurd hready.current hnot
    exact (closeContainer_does hready.current hready.bound).mono fun _ _ h => h.2
  have hleft : ∀ menu, ¬ th₁.bot.mc.Showing menu := by
    rintro menu' ⟨-, title, htitle⟩
    cases h₁.symm.trans htitle
  refine Does.bind (R := fun _ b => b.mc = th₁.bot.mc) ?_ fun _ th₂ h₂ => ?_
  · exact .change (.release (fun m _ => hleft m) ⟨rfl, rfl, .inr rfl, rfl, rfl, rfl, nofun⟩) rfl
  · exact .pure (.inr ⟨rfl, h₂ ▸ hleft⟩)

theorem sell_does {t : Tick} (hscreen : th.bot.mc.screen = none)
    (hbound : th.bot.st.sellingMenu = none) :
    Does now manual moving (sell t now) (fun _ _ => True) th := by
  refine Does.get (.ite (fun _ => .pure trivial) fun _ => ?_)
  refine .ite (fun _ => .pure trivial) fun _ => ?_
  refine Does.bind (R := fun _ _ => True) (.change (.ask hscreen hbound _) trivial) fun _ th₁ _ => ?_
  refine Does.bind (R := fun _ _ => True) (.call trivial) fun _ th₂ _ => ?_
  refine Does.bind (R := fun _ _ => True) (.change (.say ?_) trivial) fun _ th₃ _ => .call trivial
  split
  · rename_i rest _
    exact ⟨rest, .inl rfl⟩
  · exact ⟨_, .inr rfl⟩

theorem request_does {t : Tick} (hleft : ∀ menu, ¬ th.bot.mc.Showing menu) :
    Does now manual moving (request t now) (fun _ _ => True) th := by
  refine Does.bind (R := fun _ b => b.mc = th.bot.mc ∧ b.st.sellingMenu = none) ?_ fun _ th₁ h₁ => ?_
  · exact .change (.release (fun m _ => hleft m) ⟨rfl, rfl, .inl rfl, rfl, rfl, rfl, id⟩) ⟨rfl, rfl⟩
  refine Does.get (.ite (fun _ => .pure trivial) fun hscreen => ?_)
  have hnone : th₁.bot.mc.screen = none := by simpa using hscreen
  refine .ite (fun _ => .ite (fun _ => .pure trivial) fun _ => ?_) fun _ => sell_does hnone h₁.2
  refine Does.bind (edit_does ⟨rfl, rfl, rfl, rfl, rfl, rfl, nofun⟩) fun _ th₂ h₂ => ?_
  refine Does.bind (edit_does ⟨rfl, rfl, rfl, rfl, rfl, rfl, id⟩) fun _ th₃ h₃ => ?_
  refine sell_does ?_ ?_
  · rw [h₃, Bot.edit_mc, h₂, Bot.edit_mc, hnone]
  · rw [h₃, Bot.edit_st, h₂, Bot.edit_st]
    exact h₁.2

/-- What a tick did: no transfers, or those that followed its approach to a menu. -/
inductive Ticked (gson : String → Option SaleConfig) (t : Tick) (now : ℤ) (th : Thread)
    (after : Bot) : Prop where
  | idle (h : Acts now (t.manual now) false th.bot after)
  | transferred {menu : Menu} {th' : Thread}
      (happroach : (approach gson t).run th = .ok (.transfer menu) th')
      (hbefore : Acts now (t.manual now) false th.bot th'.bot)
      (h : Acts now (t.manual now) true th'.bot after)

theorem tickSale_ticked (gson : String → Option SaleConfig) (t : Tick)
    (hnow : now = th.bot.mc.clock) :
    wp (tickSale gson t) (fun _ th' => Ticked gson t now th th'.bot)
      (fun e th' => Ticked gson t now th th'.bot ∧ Explained now (t.manual now) true th.bot e) th := by
  have hexplained : ∀ {moving : Bool} {b : Bot} {e : Thrown},
      Acts now (t.manual now) true th.bot b → Explained now (t.manual now) moving b e →
      Explained now (t.manual now) true th.bot e := by
    rintro moving b e hb (rfl | ⟨b', hb', hsend⟩)
    · exact .inl rfl
    · exact .inr ⟨b', hb.trans hb'.widen, hsend⟩
  refine (wp_bind _ _).mpr (wp_get.mpr ?_)
  rw [← hnow]
  refine wp.bind (approach_does gson t hnow).run ?_ fun e th' he =>
    ⟨.idle he.2.1, hexplained .refl he.2.2⟩
  rintro next th₁ ⟨hrun, hacts, hnext⟩
  cases next with
  | leave => exact .idle hacts
  | request =>
      have hrequest : Does now (t.manual now) false (request t now) (fun _ _ => True) th₁ :=
        request_does hnext.2
      refine wp.mono hrequest ?_ ?_
      · exact fun _ th₂ h₂ => .idle (hacts.trans h₂.1)
      · exact fun e th₂ h₂ => ⟨.idle (hacts.trans h₂.1), hexplained hacts.widen h₂.2⟩
  | transfer menu =>
      obtain ⟨hready, hmanual⟩ := hnext
      refine (wp_bind _ _).mpr (wp_get.mpr ?_)
      have hloop : Does now (t.manual now) true (transfer menu now (t.manual now)
          th₁.bot.st.nextSlot (t.slots.drop th₁.bot.st.nextSlot) 0) (fun _ b => b.Ready menu) th₁ :=
        transfer_does hready rfl hmanual
      refine wp.mono (hloop.bind (Q := fun _ _ => True) fun _ th₂ hready₂ =>
        (complete_does hready₂).bind ?_) ?_ ?_
      · rintro next th₃ (rfl | ⟨rfl, hleft⟩)
        · exact .pure trivial
        · exact request_does hleft
      · exact fun _ th₂ h₂ => .transferred hrun hacts h₂.1
      · exact fun e th₂ h₂ => ⟨.transferred hrun hacts h₂.1, hexplained hacts.widen h₂.2⟩

/-! ### The opening of a menu -/

/-- The state of a bot that is in `STATES`. -/
theorem Bot.st_of_state {st : SaleState} (h : b.state = some st) : b.st = st := by
  simp [Bot.st, h]

theorem Bot.closeContainer_eq {menu : Menu} (h : b.mc.containerMenu = some menu) :
    b.closeContainer manual = { b.record (.closed menu manual) with mc := b.mc.closeContainer } := by
  simp [Bot.closeContainer, h]

theorem Minecraft.not_showing_of_screen {mc : Minecraft} (h : mc.screen = none) (menu : Menu) :
    ¬ mc.Showing menu := by
  rintro ⟨-, title, htitle⟩
  cases h.symm.trans htitle

/-- The menu of an opened screen, told to the plugin. -/
def Bot.shown (b : Bot) (containerId : ℤ) (title : List Char) (manual : Bool) : Bot :=
  { b.record (.opened ⟨b.mc.menus, containerId⟩ manual) with mc := b.mc.openScreen containerId title }

def SaleState.unready (st : SaleState) (containerId : ℤ) : SaleState :=
  { st with contentMenu := containerId, contentReady := false }

/-- What the plugin does about an opened menu. -/
inductive Opened (b : Bot) (containerId : ℤ) (title : List Char) (manual : Bool) : Bot → Prop where
  | unknown (h : b.state = none) : Opened b containerId title manual (b.shown containerId title manual)
  | kept (h : b.st.waiting → b.mc.clock - b.st.requested < 15000 → nativeSaleTitle title →
      b.st.requested ≤ 0) : Opened b containerId title manual
      ((b.shown containerId title manual).edit (·.unready containerId))
  | bound (hwaiting : b.st.waiting) (hrequested : 0 < b.st.requested)
      (hrecent : b.mc.clock - b.st.requested < 15000) (htitle : nativeSaleTitle title) :
      Opened b containerId title manual
        (((b.shown containerId title manual).edit (·.unready containerId)).edit
          (·.bindMenu ⟨b.mc.menus, containerId⟩))
  | discarded (hmanual : manual = false) : Opened b containerId title manual
      (((b.shown containerId title manual).edit (·.unready containerId)).closeContainer manual)

theorem Bot.opened_cases (b : Bot) (containerId : ℤ) (title : List Char) (n : ℕ)
    (settings : Option Settings) :
    b.opened containerId title n settings = b.elapse n ∨
      ∃ p, b.mc.player = some p ∧ Opened (b.elapse n) containerId title
        (Settings.long settings "sell-manual-until" > (b.elapse n).mc.clock)
        (b.opened containerId title n settings) := by
  unfold Bot.opened
  cases hp : b.mc.player with
  | none =>
      have hplayer : (b.elapse n).mc.player = none := hp
      exact .inl (by simp [hplayer])
  | some p =>
      have hplayer : (b.elapse n).mc.player = some p := hp
      refine .inr ⟨p, rfl, ?_⟩
      generalize b.elapse n = b₁ at hplayer ⊢
      simp only [hplayer, Option.isNone_some, Bool.false_eq_true, if_false]
      split
      · rename_i hnone
        exact .unknown hnone
      · rename_i st hsome
        obtain rfl : b₁.st = st := Bot.st_of_state hsome
        split
        · rename_i hsale
          split
          · rename_i hwaiting
            exact .bound hwaiting hsale.1 hsale.2.1 hsale.2.2
          · rename_i hwaiting
            split
            · rename_i hmanual
              have hover : decide (Settings.long settings "sell-manual-until" > b₁.mc.clock) = false := by
                simpa using hmanual
              have hclosed := @Opened.discarded b₁ containerId title _ hover
              have hcurrent : (b₁.mc.openScreen containerId title).containerMenu =
                  some ⟨b₁.mc.menus, containerId⟩ := by
                simp [Minecraft.openScreen, Minecraft.containerMenu, hplayer]
              rw [Bot.closeContainer_eq hcurrent] at hclosed ⊢
              exact hclosed
            · exact .kept fun hw => absurd hw hwaiting
        · rename_i hsale
          exact .kept fun _ hrecent htitle => Int.not_lt.mp fun hpos => hsale ⟨hpos, hrecent, htitle⟩

end AfkClient.Native

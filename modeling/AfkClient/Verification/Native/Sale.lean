import AfkClient.Verification.Native.Events
import AfkClient.Verification.Native.Transfers
import Mathlib.Data.List.Nodup

/-! The transfers of the automatic sales, over every run. Only an exception can make the
window forget transfers that were never confirmed, and it leaves their menu bound. -/

namespace AfkClient.Native

open Method

/-! ### The law of a sale -/

/-- The slots that were moved, each with its menu. -/
def moved (log : List SaleEvent) : List (Menu × ℕ) :=
  log.filterMap fun
    | .quickMove menu index _ => some (menu, index)
    | _ => none

def moves (menu : Menu) (log : List SaleEvent) : ℕ := (moved log).countP (·.1 = menu)

def credits (menu : Menu) (log : List SaleEvent) : ℕ := log.count (.credited menu)

/-- A stack of the player was moved out of the bound sale menu that is shown. -/
structure Moment.Lawful (menu : Menu) (moment : Moment) : Prop where
  bound : moment.sellingMenu = some menu
  current : moment.containerMenu = some menu
  titled : ∃ title, moment.screen = some (.container title) ∧ nativeSaleTitle (plainText title)
  received : moment.received
  slot : moment.slot.ofInventory ∧ moment.slot.active ∧ moment.slot.item.isSome

/-- At no moment more than 16 moves of a menu are unconfirmed. -/
def Bounded (log : List SaleEvent) : Prop :=
  ∀ past, past <+: log → ∀ menu, moves menu past ≤ credits menu past + SellTransfers.maxInFlight

/-- The transfers that were made so far. -/
structure SaleLaw (b : Bot) : Prop where
  once : (moved b.log).Nodup
  bounded : Bounded b.log
  lawful : ∀ menu index moment, .quickMove menu index moment ∈ b.log → moment.Lawful menu
  unrefused : .failed .windowFull ∉ b.log ∧ .failed .slotVisited ∉ b.log

@[simp] theorem moved_append (log log' : List SaleEvent) : moved (log ++ log') = moved log ++ moved log' :=
  List.filterMap_append

@[simp] theorem moves_append (menu : Menu) (log log' : List SaleEvent) :
    moves menu (log ++ log') = moves menu log + moves menu log' := by
  simp [moves]

@[simp] theorem credits_append (menu : Menu) (log log' : List SaleEvent) :
    credits menu (log ++ log') = credits menu log + credits menu log' :=
  List.count_append

theorem moves_eq_zero {menu : Menu} {log : List SaleEvent} (h : ∀ i, (menu, i) ∉ moved log) :
    moves menu log = 0 := by
  refine List.countP_eq_zero.mpr ?_
  rintro ⟨m, i⟩ hm hmenu
  obtain rfl : m = menu := by simpa using hmenu
  exact h i hm

theorem bounded_nil : Bounded [] := by
  intro past hpast menu
  simp [List.prefix_nil.mp hpast, moves, moved]

theorem bounded_concat {log : List SaleEvent} {event : SaleEvent} :
    Bounded (log ++ [event]) ↔ Bounded log ∧ ∀ menu,
      moves menu (log ++ [event]) ≤ credits menu (log ++ [event]) + SellTransfers.maxInFlight := by
  constructor
  · intro h
    exact ⟨fun past hpast => h past (hpast.trans (List.prefix_append _ _)),
      h _ (List.prefix_refl _)⟩
  · rintro ⟨h, hlast⟩ past hpast
    rcases List.prefix_concat_iff.mp hpast with rfl | hpast
    · exact hlast
    · exact h past hpast

/-- An event that is no move keeps the bound. -/
theorem Bounded.record {log : List SaleEvent} {event : SaleEvent} (h : Bounded log)
    (hnone : moved [event] = []) : Bounded (log ++ [event]) := by
  refine bounded_concat.mpr ⟨h, fun menu => ?_⟩
  have hmoves : moves menu [event] = 0 := by simp [moves, hnone]
  have := h log (List.prefix_refl log) menu
  rw [moves_append, credits_append]
  omega

/-! ### The invariant -/

/-- What every step keeps: a menu is bound anew only if nothing was moved in it, and the
cursor stands behind every slot that was. -/
structure Sound (b : Bot) : Prop where
  current : ∀ p, b.mc.player = some p →
    p.containerMenu.identity < b.mc.menus ∧ p.inventoryMenu.identity < b.mc.menus
  bound : ∀ menu, b.st.sellingMenu = some menu → menu.identity < b.mc.menus
  known : ∀ menu i, (menu, i) ∈ moved b.log → menu.identity < b.mc.menus
  cursor : ∀ menu i, (menu, i) ∈ moved b.log → b.st.sellingMenu = some menu → i < b.st.nextSlot
  left : ∀ menu i, (menu, i) ∈ moved b.log →
    b.st.sellingMenu = some menu ∨ ¬ (b.mc.Showing menu ∧ b.st.waiting)
  once : (moved b.log).Nodup
  content : ∀ menu, b.mc.Showing menu → b.st.contentMenu = menu.containerId → b.st.contentReady →
    b.mc.received
  window : b.st.transfers.Window b.st.nextSlot
  lawful : ∀ menu index moment, .quickMove menu index moment ∈ b.log → moment.Lawful menu

variable {now : ℤ} {manual moving : Bool} {b b' : Bot}

/-- A change of the plugin's state that binds no menu and moves nothing. -/
theorem Sound.edit (h : Sound b) {st : SaleState} (hwindow : st.transfers.Window st.nextSlot)
    (hnext : st.nextSlot = b.st.nextSlot) (hmenu : st.contentMenu = b.st.contentMenu)
    (hready : st.contentReady = b.st.contentReady) (hwaiting : st.waiting → b.st.waiting)
    (hbound : ∀ menu, st.sellingMenu = some menu → b.st.sellingMenu = some menu)
    (hleft : ∀ menu, b.st.sellingMenu = some menu → st.sellingMenu = some menu ∨
      ¬ (b.mc.Showing menu ∧ st.waiting)) :
    Sound { b with state := some st } where
  current := h.current
  bound := fun menu hm => h.bound menu (hbound menu hm)
  known := h.known
  cursor := fun menu i hi hm => hnext ▸ h.cursor menu i hi (hbound menu hm)
  left := fun menu i hi => by
    rcases h.left menu i hi with hm | hnot
    · exact hleft menu hm
    · exact .inr fun hs => hnot ⟨hs.1, hwaiting hs.2⟩
  once := h.once
  content := fun menu hs hm hr => h.content menu hs (hmenu ▸ hm) (hready ▸ hr)
  window := hwindow
  lawful := h.lawful

/-- An event that is no move. -/
theorem Sound.record (h : Sound b) {event : SaleEvent} (hnone : moved [event] = []) :
    Sound (b.record event) := by
  have hmoved : moved (b.log ++ [event]) = moved b.log := by simp [hnone]
  refine ⟨h.current, h.bound, ?_, ?_, ?_, ?_, h.content, h.window, ?_⟩
  · rw [Bot.record_log, hmoved]
    exact h.known
  · rw [Bot.record_log, hmoved]
    exact h.cursor
  · rw [Bot.record_log, hmoved]
    exact h.left
  · rw [Bot.record_log, hmoved]
    exact h.once
  · intro menu index moment hmem
    rcases List.mem_append.mp hmem with hmem | hmem
    · exact h.lawful menu index moment hmem
    · rw [← List.mem_singleton.mp hmem] at hnone
      cases hnone

/-- A change of the game that shows no other container. -/
theorem Sound.game (h : Sound b) {mc : Minecraft}
    (hcurrent : ∀ p, mc.player = some p →
      p.containerMenu.identity < mc.menus ∧ p.inventoryMenu.identity < mc.menus)
    (hmenus : b.mc.menus ≤ mc.menus) (hreceived : b.mc.received → mc.received)
    (hshows : ∀ menu, mc.Showing menu → b.mc.Showing menu) : Sound { b with mc } where
  current := hcurrent
  bound := fun menu hm => Nat.lt_of_lt_of_le (h.bound menu hm) hmenus
  known := fun menu i hi => Nat.lt_of_lt_of_le (h.known menu i hi) hmenus
  cursor := h.cursor
  left := fun menu i hi => (h.left menu i hi).imp_right fun hnot hs => hnot ⟨hshows menu hs.1, hs.2⟩
  once := h.once
  content := fun menu hs hm hr => hreceived (h.content menu (hshows menu hs) hm hr)
  window := h.window
  lawful := h.lawful

theorem Sound.closeContainer (h : Sound b) : Sound { b with mc := b.mc.closeContainer } := by
  refine h.game ?_ (Nat.le_refl _) id fun menu hs =>
    absurd hs (Minecraft.not_showing_of_screen rfl menu)
  intro p hp
  obtain ⟨q, hq, rfl⟩ := Option.map_eq_some_iff.mp hp
  exact ⟨(h.current q hq).2, (h.current q hq).2⟩

theorem Sound.fresh (h : Sound b) {menu : Menu} (hcurrent : b.mc.containerMenu = some menu) :
    menu.identity < b.mc.menus := by
  obtain ⟨p, hp, rfl⟩ := Option.map_eq_some_iff.mp hcurrent
  exact (h.current p hp).1

theorem Sound.bindMenu (h : Sound b) {menu : Menu} (hfresh : menu.identity < b.mc.menus)
    (hnew : ∀ i, (menu, i) ∉ moved b.log)
    (hleft : ∀ menu', b.st.sellingMenu = some menu' → menu' = menu ∨ ¬ b.mc.Showing menu') :
    Sound (b.edit (·.bindMenu menu)) where
  current := h.current
  bound := fun menu' hm => Option.some.inj hm ▸ hfresh
  known := h.known
  cursor := fun menu' i hi hm => absurd (Option.some.inj hm ▸ hi) (hnew i)
  left := fun menu' i hi => by
    rcases h.left menu' i hi with hm | hnot
    · rcases hleft menu' hm with rfl | hnot
      · exact .inl rfl
      · exact .inr fun hs => hnot hs.1
    · exact .inr hnot
  once := h.once
  content := h.content
  window := SellTransfers.window_empty
  lawful := h.lawful

/-- No act of a tick breaks the invariant. -/
theorem Sound.act (h : Sound b) (hact : Act now manual moving b b') : Sound b' := by
  cases hact with
  | @beside _ _ st hst =>
      refine h.edit ?_ hst.nextSlot hst.contentMenu hst.contentReady hst.waiting ?_ ?_
      · rw [hst.transfers, hst.nextSlot]
        exact h.window
      · exact fun menu hm => hst.sellingMenu ▸ hm
      · exact fun menu hm => .inl (hst.sellingMenu ▸ hm)
  | elapse n => exact h.game h.current (Nat.le_refl _) id fun _ hs => hs
  | close hcurrent hbound =>
      rw [Bot.closeContainer_eq hcurrent]
      exact (h.record rfl).closeContainer
  | @release _ _ st hleft hst =>
      refine h.edit ?_ hst.nextSlot hst.contentMenu hst.contentReady hst.waiting ?_ ?_
      · rcases hst.transfers with htransfers | htransfers
        · rw [htransfers, hst.nextSlot]
          exact h.window
        · rw [htransfers]
          exact SellTransfers.window_empty
      · exact fun menu hm => by cases hst.sellingMenu.symm.trans hm
      · exact fun menu hm => .inr fun hs => hleft menu hm hs.1
  | @bind _ _ menu title hcurrent hscreen htitle hwaiting hnew hrecent hmanual =>
      refine h.bindMenu (h.fresh hcurrent) ?_ ?_
      · intro i hi
        rcases h.left menu i hi with hm | hnot
        · exact hnew hm
        · exact hnot ⟨⟨hcurrent, title, hscreen⟩, hwaiting⟩
      · intro menu' hm
        by_cases hsame : menu' = menu
        · exact .inl hsame
        · exact .inr fun hs => hsame (Option.some.inj (hs.1.symm.trans hcurrent))
  | ask hscreen hbound next =>
      refine ⟨h.current, h.bound, h.known, h.cursor, ?_, h.once, h.content, h.window, h.lawful⟩
      exact fun menu i hi => .inr fun hs => Minecraft.not_showing_of_screen hscreen menu hs.1
  | say hsay =>
      obtain ⟨text, rfl | rfl⟩ := hsay <;> exact h.record rfl
  | visit =>
      refine ⟨h.current, h.bound, h.known, ?_, h.left, h.once, h.content, ?_, h.lawful⟩
      · exact fun menu i hi hm => Nat.lt_succ_of_lt (h.cursor menu i hi hm)
      · exact h.window.mono (Nat.le_succ _)
  | reserve hsend before =>
      refine ⟨h.current, h.bound, h.known, ?_, h.left, h.once, h.content, ?_, h.lawful⟩
      · exact fun menu i hi hm => Nat.lt_succ_of_lt (h.cursor menu i hi hm)
      · exact h.window.sent hsend
  | @move _ menu transfers slot moment hsend before hready hmanual hslot hmoment =>
      have hmoved : moved (b.log ++ [.quickMove menu b.st.nextSlot moment]) =
          moved b.log ++ [(menu, b.st.nextSlot)] := by simp [moved]
      refine ⟨h.current, h.bound, ?_, ?_, ?_, ?_, h.content, h.window.sent hsend, ?_⟩
      · intro menu' i hi
        rw [Bot.record_log, Bot.edit_log, hmoved, List.mem_append] at hi
        rcases hi with hi | hi
        · exact h.known menu' i hi
        · cases List.mem_singleton.mp hi
          exact h.bound menu hready.bound
      · intro menu' i hi hm
        rw [Bot.record_log, Bot.edit_log, hmoved, List.mem_append] at hi
        rcases hi with hi | hi
        · exact Nat.lt_succ_of_lt (h.cursor menu' i hi hm)
        · cases List.mem_singleton.mp hi
          exact Nat.lt_succ_self _
      · intro menu' i hi
        rw [Bot.record_log, Bot.edit_log, hmoved, List.mem_append] at hi
        rcases hi with hi | hi
        · exact h.left menu' i hi
        · cases List.mem_singleton.mp hi
          exact .inl hready.bound
      · rw [Bot.record_log, Bot.edit_log, hmoved, List.nodup_append]
        refine ⟨h.once, by simp, ?_⟩
        intro x hx y hy hxy
        rw [List.mem_singleton.mp hy] at hxy
        subst hxy
        exact Nat.lt_irrefl _ (h.cursor menu _ hx hready.bound)
      · intro menu' i moment' hmem
        rcases List.mem_append.mp hmem with hmem | hmem
        · exact h.lawful menu' i moment' hmem
        · cases List.mem_singleton.mp hmem
          obtain ⟨title, hscreen, htitle⟩ := hready.titled
          subst hmoment
          refine ⟨rfl, rfl, ⟨title, hscreen, htitle⟩, ?_, hslot⟩
          exact h.content menu ⟨hready.current, title, hscreen⟩ hready.content hready.ready

theorem Sound.acts (h : Sound b) (hacts : Acts now manual moving b b') : Sound b' :=
  hacts.keeps (fun _ _ => Sound.act) h

/-! ### The window's memory -/

/-- The window accounts for every unconfirmed move of the bound menu. -/
def Bot.Remembers (b : Bot) : Prop :=
  match b.st.sellingMenu with
  | none => True
  | some menu => moves menu b.log ≤ credits menu b.log + b.st.transfers.inFlight

instance : DecidablePred Bot.Remembers := fun b => by
  unfold Bot.Remembers
  cases b.st.sellingMenu <;> infer_instance

theorem Bot.remembers_of_bound {menu : Menu} (h : b.st.sellingMenu = some menu) :
    b.Remembers ↔ moves menu b.log ≤ credits menu b.log + b.st.transfers.inFlight := by
  simp [Bot.Remembers, h]

theorem Bot.remembers_of_free (h : b.st.sellingMenu = none) : b.Remembers := by
  simp [Bot.Remembers, h]

/-- The window remembers at least as much of the same menu, and nothing was moved. -/
theorem Bot.Remembers.mono (h : b.Remembers) (hmenu : b'.st.sellingMenu = b.st.sellingMenu)
    (hmoves : ∀ menu, moves menu b'.log ≤ moves menu b.log)
    (hcredits : ∀ menu, credits menu b.log ≤ credits menu b'.log)
    (hflight : b.st.transfers.inFlight ≤ b'.st.transfers.inFlight) : b'.Remembers := by
  cases hbound : b.st.sellingMenu with
  | none => exact Bot.remembers_of_free (hmenu.trans hbound)
  | some menu =>
      have hb := (Bot.remembers_of_bound hbound).mp h
      refine (Bot.remembers_of_bound (hmenu.trans hbound)).mpr ?_
      have := hmoves menu
      have := hcredits menu
      omega

theorem moves_record {log : List SaleEvent} {event : SaleEvent} (hnone : moved [event] = [])
    (menu : Menu) : moves menu (log ++ [event]) ≤ moves menu log := by
  simp [moves, hnone]

theorem credits_record {log : List SaleEvent} {event : SaleEvent} (menu : Menu) :
    credits menu log ≤ credits menu (log ++ [event]) := by
  simp

theorem Bot.Remembers.record (h : b.Remembers) {event : SaleEvent} (hnone : moved [event] = []) :
    (b.record event).Remembers :=
  h.mono rfl (moves_record hnone) credits_record (Nat.le_refl _)

theorem Bot.Remembers.act (h : b.Remembers) (hsound : Sound b) (hact : Act now manual moving b b') :
    b'.Remembers := by
  have hsame : ∀ log : List SaleEvent, ∀ menu, moves menu log ≤ moves menu log := fun _ _ => Nat.le_refl _
  cases hact with
  | beside hst =>
      exact h.mono hst.sellingMenu (hsame _) (fun _ => Nat.le_refl _) (by simp [hst.transfers])
  | elapse n => exact h
  | close hcurrent hbound =>
      rw [Bot.closeContainer_eq hcurrent]
      exact h.record rfl
  | release hleft hst => exact Bot.remembers_of_free hst.sellingMenu
  | @bind _ _ menu title hcurrent hscreen htitle hwaiting hnew hrecent hmanual =>
      have hnone : moves menu b.log = 0 := by
        refine moves_eq_zero fun i hi => ?_
        rcases hsound.left menu i hi with hm | hnot
        · exact hnew hm
        · exact hnot ⟨⟨hcurrent, title, hscreen⟩, hwaiting⟩
      refine (Bot.remembers_of_bound rfl).mpr ?_
      change moves menu b.log ≤ _
      omega
  | ask hscreen hbound next => exact Bot.remembers_of_free hbound
  | say hsay =>
      obtain ⟨text, rfl | rfl⟩ := hsay <;> exact h.record rfl
  | visit => exact h
  | @reserve _ transfers hsend before =>
      refine h.mono rfl (hsame _) (fun _ => Nat.le_refl _) ?_
      have := hsound.window.inFlight_send hsend
      change b.st.transfers.inFlight ≤ transfers.inFlight
      omega
  | @move _ menu transfers slot moment hsend before hready hmanual hslot hmoment =>
      refine Iff.mpr (Bot.remembers_of_bound hready.bound) ?_
      have hb := (Bot.remembers_of_bound hready.bound).mp h
      have hflight := hsound.window.inFlight_send hsend
      have hone : moves menu [.quickMove menu b.st.nextSlot moment] = 1 := by simp [moves, moved]
      rw [Bot.record_log, Bot.edit_log, moves_append, credits_append, hone]
      change _ ≤ _ + transfers.inFlight
      omega

theorem Bounded.idle (h : Bounded b.log) (hact : Act now manual false b b') : Bounded b'.log := by
  cases hact with
  | beside hst => exact h
  | elapse n => exact h
  | close hcurrent hbound =>
      rw [Bot.closeContainer_eq hcurrent]
      exact h.record rfl
  | release hleft hst => exact h
  | bind => exact h
  | ask hscreen hbound next => exact h
  | say hsay =>
      obtain ⟨text, rfl | rfl⟩ := hsay <;> exact h.record rfl

/-- Where the window remembers every move, its bound is a bound on the moves. -/
theorem Bounded.act (h : Bounded b.log) (hremembers : b.Remembers)
    (hact : Act now manual moving b b') : Bounded b'.log := by
  cases hact with
  | beside hst => exact h
  | elapse n => exact h
  | close hcurrent hbound =>
      rw [Bot.closeContainer_eq hcurrent]
      exact h.record rfl
  | release hleft hst => exact h
  | bind => exact h
  | ask hscreen hbound next => exact h
  | say hsay =>
      obtain ⟨text, rfl | rfl⟩ := hsay <;> exact h.record rfl
  | visit => exact h
  | reserve hsend before => exact h
  | @move _ menu transfers slot moment hsend before hready hmanual hslot hmoment =>
      refine bounded_concat.mpr ⟨h, fun menu' => ?_⟩
      rw [Bot.edit_log, moves_append, credits_append]
      by_cases hsame : menu' = menu
      · subst hsame
        have hone : moves menu' [.quickMove menu' b.st.nextSlot moment] = 1 := by simp [moves, moved]
        have hb := (Bot.remembers_of_bound hready.bound).mp hremembers
        have hlt : b.st.transfers.inFlight < SellTransfers.maxInFlight := by
          simpa [SellTransfers.canSend] using (SellTransfers.send_spec hsend).2.1
        omega
      · have hnone : moves menu' [.quickMove menu b.st.nextSlot moment] = 0 := by
          simp [moves, moved, Ne.symm hsame]
        have := h b.log (List.prefix_refl _) menu'
        omega

/-- No exception that was caught came from the window. -/
def Unrefused (b : Bot) : Prop := ∀ e, .failed e ∈ b.log → e = .game

theorem Unrefused.record (h : Unrefused b) {event : SaleEvent} (hne : ∀ e, event ≠ .failed e) :
    Unrefused (b.record event) := by
  intro e he
  rcases List.mem_append.mp he with he | he
  · exact h e he
  · exact absurd (List.mem_singleton.mp he).symm (hne e)

theorem Unrefused.act (h : Unrefused b) (hact : Act now manual moving b b') : Unrefused b' := by
  cases hact with
  | close hcurrent hbound =>
      rw [Bot.closeContainer_eq hcurrent]
      exact h.record (by simp)
  | say hsay =>
      obtain ⟨text, rfl | rfl⟩ := hsay <;> exact h.record (by simp)
  | move => exact Unrefused.record h (by simp)
  | _ => exact h

/-! ### Ticks -/

/-- Where a tick begins to move stacks, the window remembers what was moved before. -/
def Undropped (gson : String → Option SaleConfig) (b : Bot) (t : Tick) : Prop :=
  match (approach gson t).run ⟨b.elapse t.elapsed, t.fault⟩ with
  | .ok (.transfer _) th => th.bot.Remembers
  | _ => True

theorem explained_game (hsound : Sound b) {e : Thrown} (h : Explained now manual moving b e) :
    e = .game := by
  rcases h with rfl | ⟨b₁, hacts, hcan, hsend⟩
  · rfl
  · cases ((hsound.acts hacts).window.send hcan).symm.trans hsend

theorem Sound.elapse (h : Sound b) (n : ℕ) : Sound (b.elapse n) :=
  h.game h.current (Nat.le_refl _) id fun _ hs => hs

theorem Bot.caught_eq (b : Bot) (elapsed : ℕ) (e : Thrown) :
    b.caught elapsed e = (b.elapse elapsed).record (.failed e) ∧ b.state = none ∨
      ∃ st, st = { b.st.rejected (b.mc.clock + elapsed) with transfers := {}, beforeTransfer := [] } ∧
        b.caught elapsed e = { (b.elapse elapsed).record (.failed e) with state := some st } := by
  cases hstate : b.state with
  | none => exact .inl ⟨by simp [Bot.caught, Bot.elapse, Bot.record, hstate], rfl⟩
  | some st =>
      refine .inr ⟨_, rfl, ?_⟩
      simp [Bot.caught, Bot.elapse, Bot.record, Bot.st, hstate]

theorem Sound.caught (h : Sound b) (elapsed : ℕ) (e : Thrown) : Sound (b.caught elapsed e) := by
  have hb : Sound ((b.elapse elapsed).record (.failed e)) := (h.elapse elapsed).record rfl
  rcases b.caught_eq elapsed e with ⟨heq, -⟩ | ⟨st, hst, heq⟩
  · exact heq ▸ hb
  · rw [heq]
    subst hst
    refine hb.edit SellTransfers.window_empty rfl rfl rfl id (fun _ hm => hm) fun _ hm => .inl hm

theorem Ticked.sound {gson : String → Option SaleConfig} {t : Tick} {th : Thread}
    (h : Ticked gson t now th b') (hsound : Sound th.bot) : Sound b' := by
  cases h with
  | idle h => exact hsound.acts h
  | transferred happroach hbefore h => exact (hsound.acts hbefore).acts h

/-- What a tick keeps, if its acts and the handler of exceptions keep it. -/
theorem Bot.tick_keeps {gson : String → Option SaleConfig} {t : Tick} {P : Bot → Prop}
    (hsound : Sound b)
    (hticked : ∀ b', Ticked gson t (b.elapse t.elapsed).mc.clock ⟨b.elapse t.elapsed, t.fault⟩ b' →
      P b')
    (hcaught : ∀ b', P b' → P (b'.caught t.beforeCatch .game)) : P (b.tick gson t) := by
  have htick := @tickSale_ticked _ ⟨b.elapse t.elapsed, t.fault⟩ gson t rfl
  refine wp.outcome (R := fun r : Thread × Option Thrown =>
    P (r.2.elim r.1.bot (r.1.bot.caught t.beforeCatch))) (htick.mono ?_ ?_)
  · exact fun _ th h => hticked th.bot h
  · rintro e th ⟨h, hexplained⟩
    cases explained_game (hsound.elapse _) hexplained
    exact hcaught th.bot (hticked th.bot h)

theorem Sound.tick (h : Sound b) (gson : String → Option SaleConfig) (t : Tick) :
    Sound (b.tick gson t) :=
  Bot.tick_keeps h (fun _ hb => hb.sound (h.elapse _)) fun _ hb => hb.caught _ _

theorem Unrefused.tick (h : Unrefused b) (hsound : Sound b) (gson : String → Option SaleConfig)
    (t : Tick) : Unrefused (b.tick gson t) := by
  refine Bot.tick_keeps hsound (fun b' hb => ?_) fun b' hb => ?_
  · cases hb with
    | idle hacts => exact hacts.keeps (fun _ _ => Unrefused.act) h
    | transferred happroach hbefore hacts =>
        exact hacts.keeps (fun _ _ => Unrefused.act) (hbefore.keeps (fun _ _ => Unrefused.act) h)
  · intro e he
    rw [Bot.caught_log] at he
    rcases List.mem_append.mp he with he | he
    · exact hb e he
    · cases List.mem_singleton.mp he
      rfl

theorem Bounded.tick (h : Bounded b.log) (hsound : Sound b) {gson : String → Option SaleConfig}
    {t : Tick} (hundropped : Undropped gson b t) : Bounded (b.tick gson t).log := by
  refine Bot.tick_keeps (P := fun b => Bounded b.log) hsound (fun b' hb => ?_) fun b' hb => ?_
  · cases hb with
    | idle hacts => exact hacts.keeps (P := fun b => Bounded b.log) (fun _ _ => Bounded.idle) h
    | @transferred menu th' happroach hbefore hacts =>
        have hremembers : th'.bot.Remembers := by simpa [Undropped, happroach] using hundropped
        have hb := hbefore.keeps (P := fun b => Bounded b.log) (fun _ _ => Bounded.idle) h
        refine (hacts.keeps (P := fun b => Sound b ∧ b.Remembers ∧ Bounded b.log) ?_
          ⟨(hsound.elapse _).acts hbefore, hremembers, hb⟩).2.2
        rintro b₁ b₂ ⟨hs, hr, hb⟩ hact
        exact ⟨hs.act hact, hr.act hs hact, hb.act hr hact⟩
  · rw [Bot.caught_log]
    exact hb.record rfl

/-! ### The other steps -/

theorem Sound.credited (h : Sound b) (menu : Menu) (n : ℕ) :
    Sound { b with log := b.log ++ List.replicate n (.credited menu) } := by
  induction n with
  | zero => simpa using h
  | succ n ih =>
      have hlast : Sound (Bot.record _ (.credited menu)) := ih.record rfl
      rw [List.replicate_succ', ← List.append_assoc]
      exact hlast

theorem Bounded.credited {log : List SaleEvent} (h : Bounded log) (menu : Menu) (n : ℕ) :
    Bounded (log ++ List.replicate n (.credited menu)) := by
  induction n with
  | zero => simpa using h
  | succ n ih =>
      rw [List.replicate_succ', ← List.append_assoc]
      exact ih.record rfl

theorem Sound.credit (h : Sound b) {menu : Menu} {f : SellTransfers → SellTransfers}
    (hf : b.st.transfers.Credits (f b.st.transfers)) : Sound (b.credit menu f) := by
  refine Sound.credited (b := b.edit fun st => { st with transfers := f b.st.transfers }) ?_ menu _
  exact h.edit (h.window.credit hf) rfl rfl rfl id (fun _ hm => hm) fun _ hm => .inl hm

theorem Sound.rejected (h : Sound b) (time : ℤ) : Sound (b.edit (·.rejected time)) :=
  h.edit h.window rfl rfl rfl id (fun _ hm => hm) fun _ hm => .inl hm

theorem Sound.inventoryMessage (h : Sound b) (message : List Char) (n : ℕ) :
    Sound (b.inventoryMessage message n) := by
  unfold Bot.inventoryMessage
  dsimp only
  split
  · exact (h.elapse n).rejected _
  · exact h.elapse n

theorem Sound.serverMessage (h : Sound b) (message : List Char) (n : ℕ) :
    Sound (b.serverMessage message n) := by
  have hb := h.inventoryMessage message n
  unfold Bot.serverMessage
  generalize b.inventoryMessage message n = b' at hb ⊢
  dsimp only
  split
  · have hedit : Sound (b'.edit fun st => { st with recovery := st.recovery.confirmed }) :=
      hb.edit hb.window rfl rfl rfl id (fun _ hm => hm) fun _ hm => .inl hm
    split
    · exact hedit
    · exact hedit.credit hedit.window.toCounted.acknowledgePayout
  · exact hb

theorem Sound.received (h : Sound b) : Sound { b with mc := { b.mc with received := true } } :=
  h.game h.current (Nat.le_refl _) (fun _ => rfl) fun _ hs => hs

theorem Sound.inventoryAck (h : Sound b) (menu slot : ℤ) (items : List (Option Stack)) :
    Sound (b.inventoryAck menu slot items) := by
  unfold Bot.inventoryAck
  generalize hb₁ : (if slot = -1 ∧ b.mc.containerMenu.any (·.containerId = menu) then
    ({ b with mc := { b.mc with received := true } } : Bot) else b) = b₁
  have h₁ : Sound b₁ ∧ (slot = -1 → ∀ m, b₁.mc.Showing m → menu = m.containerId → b₁.mc.received) := by
    subst hb₁
    split
    · exact ⟨h.received, fun _ _ _ _ => rfl⟩
    · rename_i hnot
      refine ⟨h, fun hslot m hs hm => absurd ⟨hslot, ?_⟩ hnot⟩
      simp [hs.1, hm]
  dsimp only
  cases hstate : b₁.state with
  | none => exact h₁.1
  | some st =>
      have hst : b₁.st = st := Bot.st_of_state hstate
      dsimp only
      generalize hb₂ : (if menu = st.contentMenu ∧ slot = -1 then
        b₁.edit (fun st => { st with contentReady := true }) else b₁) = b₂
      have h₂ : Sound b₂ := by
        subst hb₂
        split
        · rename_i hack
          refine ⟨h₁.1.current, h₁.1.bound, h₁.1.known, h₁.1.cursor, h₁.1.left, h₁.1.once, ?_,
            h₁.1.window, h₁.1.lawful⟩
          intro m hs hm _
          exact h₁.2 hack.2 m hs (hack.1.trans (hst ▸ hm))
        · exact h₁.1
      split
      · exact h₂
      · split
        · split
          · exact h₂.credit (SellTransfers.acknowledgeSlot_credits _ _)
          · exact h₂.credit (SellTransfers.acknowledgeSlots_credits _ _)
        · exact h₂

theorem Sound.unready (h : Sound b) (containerId : ℤ) :
    Sound (b.edit fun st => { st with contentMenu := containerId, contentReady := false }) :=
  ⟨h.current, h.bound, h.known, h.cursor, h.left, h.once, nofun, h.window, h.lawful⟩

theorem Minecraft.openScreen_showing {mc : Minecraft} {p : Player} (hp : mc.player = some p)
    {containerId : ℤ} {title : List Char} {menu : Menu}
    (hs : (mc.openScreen containerId title).Showing menu) : menu.identity = mc.menus := by
  have hmenu : some (⟨mc.menus, containerId⟩ : Menu) = some menu := by
    simpa [Minecraft.openScreen, Minecraft.containerMenu, hp] using hs.1
  exact (congrArg Menu.identity (Option.some.inj hmenu)).symm

/-- A menu that is opened is a new one: nothing was moved in it. -/
theorem Sound.openScreen (h : Sound b) {p : Player} (hp : b.mc.player = some p)
    (hunready : b.st.contentReady = false) (containerId : ℤ) (title : List Char) :
    Sound { b with mc := b.mc.openScreen containerId title } where
  current := fun q hq => by
    have hq' : { p with containerMenu := ⟨b.mc.menus, containerId⟩ } = q := by
      simpa [Minecraft.openScreen, hp] using hq
    have := (h.current p hp).2
    subst hq'
    simp only [Minecraft.openScreen, hp]
    omega
  bound := fun menu hm => by
    have := h.bound menu hm
    simp only [Minecraft.openScreen, hp]
    omega
  known := fun menu i hi => by
    have := h.known menu i hi
    simp only [Minecraft.openScreen, hp]
    omega
  cursor := h.cursor
  left := fun menu i hi => .inr fun hs =>
    Nat.ne_of_lt (h.known menu i hi) (Minecraft.openScreen_showing hp hs.1)
  once := h.once
  content := fun menu hs hm hr => by
    cases hunready.symm.trans hr
  window := h.window
  lawful := h.lawful

theorem Sound.shown (h : Sound b) {p : Player} (hp : b.mc.player = some p)
    (containerId : ℤ) (title : List Char) :
    Sound ((b.shown containerId title manual).edit (·.unready containerId)) :=
  ((h.record (show moved [.opened ⟨b.mc.menus, containerId⟩ manual] = [] from rfl)).unready
    containerId).openScreen
    hp rfl containerId title

theorem Sound.opened (h : Sound b) (containerId : ℤ) (title : List Char) (n : ℕ)
    (settings : Option Settings) : Sound (b.opened containerId title n settings) := by
  have h₁ := h.elapse n
  rcases b.opened_cases containerId title n settings with heq | ⟨p, hp, hopened⟩
  · exact heq ▸ h₁
  have hp : (b.elapse n).mc.player = some p := hp
  generalize b.elapse n = b₁ at h₁ hp hopened
  generalize b.opened containerId title n settings = b₂ at hopened ⊢
  cases hopened with
  | unknown hstate =>
      have hst : b₁.st = {} := by simp [Bot.st, hstate]
      have hrecord {manual : Bool} : Sound (b₁.record (.opened ⟨b₁.mc.menus, containerId⟩ manual)) :=
        h₁.record rfl
      exact hrecord.openScreen hp
        (by rw [Bot.record_st, hst]) containerId title
  | kept => exact h₁.shown hp containerId title
  | bound =>
      refine (h₁.shown hp containerId title).bindMenu ?_ ?_ ?_
      · simp only [Bot.edit_mc, Bot.shown, Minecraft.openScreen, hp]
        omega
      · intro i hi
        have hi' : ((⟨b₁.mc.menus, containerId⟩ : Menu), i) ∈ moved b₁.log := by
          simpa [Bot.shown, moved] using hi
        exact Nat.lt_irrefl _ (h₁.known _ i hi')
      · refine fun menu hm => .inr fun hs => ?_
        exact Nat.ne_of_lt (h₁.bound menu hm) (Minecraft.openScreen_showing hp hs)
  | discarded hover =>
      have hcurrent : (b₁.mc.openScreen containerId title).containerMenu =
          some ⟨b₁.mc.menus, containerId⟩ := by
        simp [Minecraft.openScreen, Minecraft.containerMenu, hp]
      rw [Bot.closeContainer_eq hcurrent]
      exact Sound.closeContainer ((h₁.shown hp containerId title).record rfl)

theorem Sound.disconnected (h : Sound b) : Sound b.disconnected := by
  refine ⟨h.current, nofun, h.known, nofun, ?_, h.once, ?_, SellTransfers.window_empty, h.lawful⟩
  · exact fun menu i hi => .inr fun hs => by cases hs.2
  · exact fun menu hs hm hr => by cases hr

theorem Sound.collected (h : Sound b) : Sound b.collected := by
  unfold Bot.collected
  cases hstate : b.state with
  | none => exact h
  | some st =>
      obtain rfl : b.st = st := Bot.st_of_state hstate
      dsimp only
      split
      · exact h
      · rename_i hnot
        refine h.edit h.window rfl rfl rfl id nofun fun menu hm => .inr fun hs => hnot ?_
        rw [hs.1.1, hm]

theorem Sound.joins (h : Sound b) (hash level : ℤ) : Sound { b with mc := { b.mc with
    player := some ⟨hash, ⟨b.mc.menus, 0⟩, ⟨b.mc.menus, 0⟩⟩, level := some level, gameMode := true
    screen := none, menus := b.mc.menus + 1 } } := by
  refine h.game ?_ (Nat.le_succ _) id fun menu hs =>
    absurd hs (Minecraft.not_showing_of_screen rfl menu)
  intro p hp
  cases hp
  exact ⟨Nat.lt_succ_self _, Nat.lt_succ_self _⟩

theorem Sound.step (h : Sound b) (gson : String → Option SaleConfig) (i : Input) :
    Sound (b.step gson i) := by
  cases i with
  | tick t => exact h.tick gson t
  | opened containerId title n settings => exact h.opened containerId title n settings
  | inventoryAck menu slot items => exact h.inventoryAck menu slot items
  | inventoryMessage message n => exact h.inventoryMessage message n
  | serverMessage message n => exact h.serverMessage message n
  | disconnected => exact h.disconnected
  | closes => exact h.closeContainer
  | shows screen =>
      refine h.game h.current (Nat.le_refl _) id fun menu hs => ?_
      obtain ⟨-, title, htitle⟩ := hs
      cases screen <;> cases htitle
  | joins hash level => exact h.joins hash level
  | leaves =>
      exact h.game nofun (Nat.le_refl _) id fun menu hs =>
        absurd hs (Minecraft.not_showing_of_screen rfl menu)
  | collected => exact h.collected
  | renewed deadline n =>
      exact ⟨h.current, h.bound, h.known, h.cursor, h.left, h.once, h.content, h.window, h.lawful⟩

/-- What a step between the ticks leaves in the log: no moves, and no exceptions. -/
def Quiet (log log' : List SaleEvent) : Prop :=
  ∃ events, log' = log ++ events ∧ ∀ event ∈ events, moved [event] = [] ∧ ∀ e, event ≠ .failed e

theorem Quiet.moved {log log' : List SaleEvent} (h : Quiet log log') :
    Native.moved log' = Native.moved log := by
  obtain ⟨events, rfl, he⟩ := h
  have hnone : Native.moved events = [] := by
    refine List.filterMap_eq_nil_iff.mpr fun event hmem => ?_
    have := (he event hmem).1
    cases event <;> simp_all [Native.moved]
  simp [hnone]

theorem Quiet.bounded {log log' : List SaleEvent} (h : Quiet log log') (hb : Bounded log) :
    Bounded log' := by
  obtain ⟨events, rfl, he⟩ := h
  induction events generalizing log with
  | nil => simpa using hb
  | cons event events ih =>
      have hlast := ih (hb.record (he event (by simp)).1) fun e hmem => he e (by simp [hmem])
      simpa using hlast

theorem Quiet.unrefused (h : Quiet b.log b'.log) (hb : Unrefused b) : Unrefused b' := by
  obtain ⟨events, hlog, he⟩ := h
  intro e hmem
  rw [hlog] at hmem
  rcases List.mem_append.mp hmem with hmem | hmem
  · exact hb e hmem
  · exact absurd rfl ((he _ hmem).2 e)

/-- Between the ticks nothing is moved. -/
theorem quiet_step (b : Bot) (gson : String → Option SaleConfig) {i : Input}
    (hi : ∀ t, i ≠ .tick t) : Quiet b.log (b.step gson i).log := by
  refine (adds_step b gson hi).mono fun event hplain => ?_
  cases event <;> first | exact hplain.elim | exact ⟨rfl, by simp⟩

/-! ### Moves in one tick -/

theorem Act.moved_eq (hact : Act now manual false b b') : moved b'.log = moved b.log := by
  cases hact with
  | close hcurrent hbound =>
      rw [Bot.closeContainer_eq hcurrent]
      simp [moved]
  | say hsay =>
      obtain ⟨text, rfl | rfl⟩ := hsay <;> simp [moved]
  | _ => rfl

theorem Acts.moved_eq (hacts : Acts now manual false b b') : moved b'.log = moved b.log :=
  hacts.keeps (P := fun b' => moved b'.log = moved b.log) (fun _ _ h hact => hact.moved_eq.trans h) rfl

/-- A visit moves at most one stack, and none if it says so. -/
theorem visit_moved {menu : Menu} {index : ℕ} {slot : Slot} {th : Thread} {n : ℕ}
    (hn : (moved th.bot.log).length ≤ n) :
    wp (visit menu now manual index slot)
      (fun moves th' => (moved th'.bot.log).length ≤ n + moves.toNat)
      (fun _ th' => (moved th'.bot.log).length ≤ n + 1) th := by
  unfold visit
  simp only [wp_bind, edit, wp_change]
  refine wp_call (fun fault => ?_) (Nat.le_succ_of_le hn)
  split
  · simp only [quickMove, edit, wp_bind, wp_change, wp_get, Bot.edit_st]
    cases th.bot.st.transfers.send index now with
    | error e => exact Nat.le_succ_of_le hn
    | ok transfers =>
        simp only [wp_ofExcept_ok, wp_bind, wp_change]
        have hmove : ∀ log moment, (moved log).length ≤ n →
            (moved (log ++ [.quickMove menu index moment])).length ≤ n + 1 := by
          intro log moment h
          simpa [moved] using h
        refine wp_call (fun fault => ?_) (Nat.le_succ_of_le hn)
        exact wp_call (fun fault => hmove _ _ hn) (hmove _ _ hn)
  · exact hn

theorem transfer_moved {menu : Menu} {index sent : ℕ} {slots : List Slot} {th : Thread} {n : ℕ}
    (hsent : sent ≤ SellTransfers.maxPerTick)
    (hn : (moved th.bot.log).length ≤ n + sent) :
    wp (transfer menu now manual index slots sent)
      (fun _ th' => (moved th'.bot.log).length ≤ n + SellTransfers.maxPerTick)
      (fun _ th' => (moved th'.bot.log).length ≤ n + SellTransfers.maxPerTick) th := by
  induction slots generalizing th index sent with
  | nil => exact (wp_pure _).mpr (by omega)
  | cons slot rest ih =>
      refine (wp_bind _ _).mpr (wp_get.mpr (wp_ite.mpr ⟨fun hloop => ?_, fun _ => ?_⟩))
      · refine wp.bind (visit_moved hn) (fun moves th' h' => ?_) fun e th' h' => by omega
        refine ih ?_ (by omega)
        have := Bool.toNat_le moves
        omega
      · exact (wp_pure _).mpr (by omega)

theorem tickSale_moved {gson : String → Option SaleConfig} {t : Tick} {th : Thread} :
    wp (tickSale gson t)
      (fun _ th' => (moved th'.bot.log).length ≤ (moved th.bot.log).length + SellTransfers.maxPerTick)
      (fun _ th' => (moved th'.bot.log).length ≤ (moved th.bot.log).length + SellTransfers.maxPerTick)
      th := by
  have hsame : ∀ {th₁ : Thread} {b : Bot} {now : ℤ} {n : ℕ},
      Acts now (t.manual now) false th₁.bot b → (moved th₁.bot.log).length ≤ n →
      (moved b.log).length ≤ n := fun hacts hn => hacts.moved_eq ▸ hn
  have hmore : (moved th.bot.log).length ≤
      (moved th.bot.log).length + SellTransfers.maxPerTick := Nat.le_add_right _ _
  refine (wp_bind _ _).mpr (wp_get.mpr ?_)
  refine wp.bind (approach_does gson t rfl) ?_ fun e th' he => hsame he.1 hmore
  rintro next th₁ ⟨hacts, hnext⟩
  have hn := hsame hacts (Nat.le_refl _)
  cases next with
  | leave => exact hsame hacts hmore
  | request =>
      exact wp.mono (request_does hnext.2) (fun _ _ h => hsame h.1 (hsame hacts hmore))
        fun _ _ h => hsame h.1 (hsame hacts hmore)
  | transfer menu =>
      obtain ⟨hready, hmanual⟩ := hnext
      refine (wp_bind _ _).mpr (wp_get.mpr ?_)
      refine wp.bind ((transfer_does hready rfl hmanual).and
        (transfer_moved (Nat.zero_le _) hn)) ?_ fun e th' he => he.2
      rintro - th₂ ⟨⟨-, hready₂⟩, hn₂⟩
      refine wp.bind (complete_does hready₂) ?_ fun e th' he => hsame he.1 hn₂
      rintro next th₃ ⟨hacts₃, rfl | ⟨rfl, hleft⟩⟩
      · exact hsame hacts₃ hn₂
      · exact wp.mono (request_does hleft) (fun _ _ h => hsame h.1 (hsame hacts₃ hn₂))
          fun _ _ h => hsame h.1 (hsame hacts₃ hn₂)

/-- No step moves more than eight stacks, and only a tick moves any. -/
def FewMoves (gson : String → Option SaleConfig) (b : Bot) (i : Input) : Prop :=
  (moved (b.step gson i).log).length ≤ (moved b.log).length +
    match i with
    | .tick _ => SellTransfers.maxPerTick
    | _ => 0

theorem fewMoves (gson : String → Option SaleConfig) (b : Bot) (i : Input) : FewMoves gson b i := by
  by_cases hi : ∀ t, i ≠ .tick t
  · have hquiet := (quiet_step b gson hi).moved
    unfold FewMoves
    rw [hquiet]
    exact Nat.le_add_right _ _
  · obtain ⟨t, rfl⟩ : ∃ t, i = .tick t := by simpa using hi
    have htick := @tickSale_moved gson t ⟨b.elapse t.elapsed, t.fault⟩
    refine wp.outcome (R := fun r : Thread × Option Thrown =>
      (moved (r.2.elim r.1.bot (r.1.bot.caught t.beforeCatch)).log).length ≤
        (moved b.log).length + SellTransfers.maxPerTick) (htick.mono ?_ ?_)
    · exact fun _ th h => h
    · intro e th h
      simpa [Bot.caught_log, moved] using h

/-! ### Runs -/

theorem sound_init (clock : ℤ) : Sound (.init clock) := by
  have hnone : moved (Bot.init clock).log = [] := rfl
  refine ⟨nofun, nofun, ?_, ?_, ?_, ?_, nofun, SellTransfers.window_empty, ?_⟩
  · simp [hnone]
  · simp [hnone]
  · simp [hnone]
  · simp [hnone]
  · simp [Bot.init]

/-- A tick moves stacks only where the window remembers what was moved in that menu before. -/
def Remembered (gson : String → Option SaleConfig) (b : Bot) : Input → Prop
  | .tick t => Undropped gson b t
  | _ => True

theorem transfers_lawful (gson : String → Option SaleConfig) (clock : ℤ) (inputs : List Input)
    (h : Meets (Bot.step gson) (Remembered gson) (.init clock) inputs) :
    Along (Bot.step gson) SaleLaw (.init clock) inputs ∧
      Meets (Bot.step gson) (FewMoves gson) (.init clock) inputs := by
  constructor
  · have hstep : ∀ b i, Sound b ∧ Unrefused b ∧ Bounded b.log → Remembered gson b i →
        Sound (b.step gson i) ∧ Unrefused (b.step gson i) ∧ Bounded (b.step gson i).log := by
      rintro b i ⟨hsound, hunrefused, hbounded⟩ hremembered
      refine ⟨hsound.step gson i, ?_⟩
      by_cases hi : ∀ t, i ≠ .tick t
      · have hquiet := quiet_step b gson hi
        exact ⟨hquiet.unrefused hunrefused, hquiet.bounded hbounded⟩
      · obtain ⟨t, rfl⟩ : ∃ t, i = .tick t := by simpa using hi
        exact ⟨hunrefused.tick hsound gson t, hbounded.tick hsound hremembered⟩
    refine (along_of_preserved hstep ⟨sound_init clock, by simp [Unrefused, Bot.init], bounded_nil⟩ h).mono ?_
    rintro b ⟨hsound, hunrefused, hbounded⟩
    refine ⟨hsound.once, hbounded, hsound.lawful, fun hfull => ?_, fun hvisited => ?_⟩
    · cases hunrefused _ hfull
    · cases hunrefused _ hvisited
  · exact meets_true.mono fun b i _ => fewMoves gson b i

instance (gson : String → Option SaleConfig) (b : Bot) (i : Input) : Decidable (Remembered gson b i) := by
  unfold Remembered Undropped
  split
  · split <;> infer_instance
  · infer_instance

/-- The entry of an enabled automation, as the settings library reads it. -/
def saleEntry : String := "\x7b\"enabled\":true,\"intervalMs\":60000,\"command\":\"/sell\"\x7d"

def readEntry (text : String) : Option SaleConfig :=
  if text = saleEntry then some ⟨some true, some 60000, some "/sell"⟩ else none

def saleSettings : Settings := fun key =>
  if key = "native-auto-sell" then some (.string saleEntry) else none

/-- A tick of a player with 36 full slots under a menu of three rows. -/
def fullTick (elapsed : ℕ) (fault : Option ℕ) : Tick :=
  { elapsed, settings := some saleSettings, position := (0, 64, 0)
    slots := List.replicate 27 ⟨false, true, none⟩ ++ List.replicate 36 ⟨true, true, some ⟨"wheat", 64⟩⟩
    stock := List.replicate 36 (some ⟨"wheat", 64⟩), fault }

/-- A sale is opened, and its first eight stacks are moved. -/
def firstMoves : List Input :=
  [.joins 7 1, .renewed 60000 0, .tick (fullTick 0 none), .tick (fullTick 2000 none),
    .opened 3 "Sell".toList 50 (some saleSettings), .inventoryAck 3 (-1) [], .tick (fullTick 50 none)]

theorem transfers_lawful_first :
    Along (Bot.step readEntry) SaleLaw (.init 1000) firstMoves ∧
      Meets (Bot.step readEntry) (FewMoves readEntry) (.init 1000) firstMoves :=
  transfers_lawful readEntry 1000 firstMoves (by decide +kernel)

/-- The game throws when the 16th stack was moved, and the next tick comes after the pause:
eight more stacks follow, none of the 24 is confirmed. -/
theorem transfers_unlawful :
    ¬ Along (Bot.step readEntry) SaleLaw (.init 1000)
      (firstMoves ++ [.tick (fullTick 50 (some 26)), .tick (fullTick 2050 none)]) := by
  intro h
  have hbounded := h.last.bounded _ (List.prefix_refl _) ⟨1, 3⟩
  exact absurd hbounded (by decide +kernel)

end AfkClient.Native

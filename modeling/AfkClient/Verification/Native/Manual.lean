import AfkClient.Verification.Native.Sale
import Mathlib.Data.List.Chain
import Mathlib.Data.List.DropRight

/-! The player's own menus, over every run. During a manual window a tick only cancels, so
a menu is in danger only if the plugin takes it for the sale it still waits for. -/

namespace AfkClient.Native

open Method

/-! ### Titles -/

/-- No formatting code is left. -/
abbrev Uncoded (text : List Char) : Prop := text.IsChain fun c d => ¬ (c = '§' ∧ isJavaDot d)

theorem withoutCodes_head {d : Char} (rest : List Char) (hd : d ≠ '§') :
    (withoutCodes (d :: rest)).head? = some d := by
  cases rest with
  | nil => rfl
  | cons e rest => simp [withoutCodes, hd]

theorem uncoded_withoutCodes (text : List Char) : Uncoded (withoutCodes text) := by
  fun_induction withoutCodes text with
  | case1 => exact .nil
  | case2 c => exact .singleton c
  | case3 c d rest hcode ih => exact ih
  | case4 c d rest hcode ih =>
      refine List.isChain_cons.mpr ⟨?_, ih⟩
      rintro e he ⟨rfl, hdot⟩
      -- A code that is left begins in front of a line terminator.
      have hd : d ≠ '§' := by
        rintro rfl
        exact hcode ⟨rfl, by decide⟩
      rw [withoutCodes_head rest hd] at he
      exact hcode ⟨rfl, Option.some.inj he ▸ hdot⟩

theorem withoutCodes_of_uncoded {text : List Char} (h : Uncoded text) : withoutCodes text = text := by
  fun_induction withoutCodes text with
  | case1 => rfl
  | case2 c => rfl
  | case3 c d rest hcode ih => exact absurd hcode (List.isChain_cons_cons.mp h).1
  | case4 c d rest hcode ih => rw [ih (List.isChain_cons_cons.mp h).2]

theorem javaTrim_eq (text : List Char) :
    javaTrim text = (text.dropWhile fun c => decide (c ≤ ' ')).rdropWhile fun c => decide (c ≤ ' ') := rfl

theorem uncoded_javaTrim {text : List Char} (h : Uncoded text) : Uncoded (javaTrim text) := by
  rw [javaTrim_eq]
  exact List.IsChain.infix (h.suffix (List.dropWhile_suffix _)) (List.rdropWhile_prefix _ _).isInfix

theorem dropWhile_of_prefix {p : Char → Bool} {l l' : List Char} (hl : l.dropWhile p = l)
    (hbegin : l' <+: l) : l'.dropWhile p = l' := by
  cases l' with
  | nil => rfl
  | cons c rest =>
      obtain ⟨more, rfl⟩ := hbegin
      rw [List.cons_append, List.dropWhile_eq_self_iff] at hl
      exact List.dropWhile_cons_of_neg (by simpa using hl (by simp))

theorem javaTrim_javaTrim (text : List Char) : javaTrim (javaTrim text) = javaTrim text := by
  have hdrop := dropWhile_of_prefix (List.dropWhile_idempotent (fun c => decide (c ≤ ' ')) text)
    (List.rdropWhile_prefix (fun c => decide (c ≤ ' ')) _)
  rw [javaTrim_eq (javaTrim text), javaTrim_eq text, hdrop, List.rdropWhile_idempotent]

/-- A title that was read once reads the same again. -/
theorem plainText_plainText (text : List Char) : plainText (plainText text) = plainText text := by
  have huncoded := uncoded_javaTrim (uncoded_withoutCodes text)
  unfold plainText
  rw [withoutCodes_of_uncoded huncoded, javaTrim_javaTrim]

theorem nativeSaleTitle_plainText (title : List Char) :
    nativeSaleTitle (plainText title) = nativeSaleTitle title := by
  simp only [nativeSaleTitle, plainText_plainText]

attribute [local irreducible] nativeSaleTitle

/-! ### The invariant -/

/-- During a manual window nothing was moved, and no menu closed that was opened in one. -/
structure Unharmed (log : List SaleEvent) : Prop where
  unmoved : ∀ menu index moment, .quickMove menu index moment ∈ log → moment.manual = false
  unclosed : ∀ menu, .closed menu true ∈ log → .opened menu true ∉ log

/-- What protects the menus that were opened in manual windows, at the clock reading `now`. -/
structure Aloof (now : ℤ) (b : Bot) : Prop where
  opened : ∀ menu manual, .opened menu manual ∈ b.log → menu.identity < b.mc.menus
  closed : ∀ menu manual, .closed menu manual ∈ b.log → menu.identity < b.mc.menus
  unbound : ∀ menu, .opened menu true ∈ b.log → b.st.sellingMenu ≠ some menu
  late : ∀ menu title, .opened menu true ∈ b.log → b.mc.containerMenu = some menu →
    b.mc.screen = some (.container title) → nativeSaleTitle title → b.st.waiting →
    15000 ≤ now - b.st.requested
  unharmed : Unharmed b.log

variable {now now' : ℤ} {manual moving : Bool} {b b' : Bot}

theorem Aloof.mono (h : Aloof now b) (hle : now ≤ now') : Aloof now' b := by
  refine { h with late := fun menu title ho hc hs ht hw => ?_ }
  have := h.late menu title ho hc hs ht hw
  omega

/-- A change of the plugin's state that binds no menu and asks for none. -/
theorem Aloof.edit (h : Aloof now b) {st : SaleState} (hrequested : st.requested = b.st.requested)
    (hwaiting : st.waiting → b.st.waiting)
    (hbound : ∀ menu, st.sellingMenu = some menu → b.st.sellingMenu = some menu) :
    Aloof now { b with state := some st } where
  opened := h.opened
  closed := h.closed
  unbound := fun menu ho hm => h.unbound menu ho (hbound menu hm)
  late := fun menu title ho hc hs ht hw => by
    have := h.late menu title ho hc hs ht (hwaiting hw)
    rwa [← hrequested] at this
  unharmed := h.unharmed

/-- A change of the game that shows no other container. -/
theorem Aloof.game (h : Aloof now b) {mc : Minecraft} (hmenus : b.mc.menus ≤ mc.menus)
    (hshows : ∀ title, mc.screen = some (.container title) →
      b.mc.screen = some (.container title) ∧ mc.containerMenu = b.mc.containerMenu) :
    Aloof now { b with mc } where
  opened := fun menu manual ho => Nat.lt_of_lt_of_le (h.opened menu manual ho) hmenus
  closed := fun menu manual ho => Nat.lt_of_lt_of_le (h.closed menu manual ho) hmenus
  unbound := h.unbound
  late := fun menu title ho hc hs ht hw => by
    obtain ⟨hs', hc'⟩ := hshows title hs
    exact h.late menu title ho (hc'.symm.trans hc) hs' ht hw
  unharmed := h.unharmed

/-- The other events are of no concern. -/
theorem Aloof.record (h : Aloof now b) {event : SaleEvent}
    (hevent : (∀ menu i moment, event ≠ .quickMove menu i moment) ∧
      (∀ menu manual, event ≠ .opened menu manual) ∧ ∀ menu manual, event ≠ .closed menu manual) :
    Aloof now (b.record event) := by
  obtain ⟨hmove, hopened, hclosed⟩ := hevent
  have hold : ∀ e, e ≠ event → e ∈ b.log ++ [event] → e ∈ b.log := fun e hne he =>
    (List.mem_append.mp he).resolve_right fun hlast => hne (List.mem_singleton.mp hlast)
  refine ⟨?_, ?_, ?_, ?_, ?_, ?_⟩
  · exact fun menu manual ho => h.opened menu manual (hold _ (hopened menu manual).symm ho)
  · exact fun menu manual ho => h.closed menu manual (hold _ (hclosed menu manual).symm ho)
  · exact fun menu ho => h.unbound menu (hold _ (hopened menu true).symm ho)
  · exact fun menu title ho => h.late menu title (hold _ (hopened menu true).symm ho)
  · exact fun menu i moment ho => h.unharmed.unmoved menu i moment (hold _ (hmove menu i moment).symm ho)
  · exact fun menu hc ho => h.unharmed.unclosed menu (hold _ (hclosed menu true).symm hc)
      (hold _ (hopened menu true).symm ho)

/-- The player's container is closed: in a manual window, none that was opened in one. -/
theorem Aloof.close (h : Aloof now b) (hsound : Sound b) {menu : Menu}
    (hcurrent : b.mc.containerMenu = some menu)
    (hmanual : manual = true → .opened menu true ∉ b.log) : Aloof now (b.closeContainer manual) := by
  rw [Bot.closeContainer_eq hcurrent]
  have hold : ∀ {e}, (∀ m manual', e ≠ .closed m manual') →
      e ∈ b.log ++ [.closed menu manual] → e ∈ b.log := fun hne he =>
    (List.mem_append.mp he).resolve_right fun hlast => hne _ _ (List.mem_singleton.mp hlast)
  refine ⟨?_, ?_, ?_, ?_, ?_, ?_⟩
  · exact fun menu' manual' ho => h.opened menu' manual' (hold (by simp) ho)
  · intro menu' manual' hc
    rcases List.mem_append.mp hc with hc | hc
    · exact h.closed menu' manual' hc
    · cases List.mem_singleton.mp hc
      exact hsound.fresh hcurrent
  · exact fun menu' ho => h.unbound menu' (hold (by simp) ho)
  · exact fun menu' title ho hc hs => nomatch hs
  · exact fun menu' i moment ho => h.unharmed.unmoved menu' i moment (hold (by simp) ho)
  · intro menu' hc ho
    rcases List.mem_append.mp hc with hc | hc
    · exact h.unharmed.unclosed menu' hc (hold (by simp) ho)
    · cases List.mem_singleton.mp hc
      exact hmanual rfl (hold (by simp) ho)

theorem Aloof.act (h : Aloof now b) (hsound : Sound b) (hact : Act now manual moving b b') :
    Aloof now b' := by
  cases hact with
  | beside hst =>
      exact h.edit hst.requested hst.waiting fun menu hm => hst.sellingMenu ▸ hm
  | elapse n => exact h.game (Nat.le_refl _) fun title hs => ⟨hs, rfl⟩
  | @close _ _ menu hcurrent hbound =>
      exact h.close hsound hcurrent fun _ ho => h.unbound menu ho hbound
  | release hleft hst =>
      exact h.edit hst.requested hst.waiting fun menu hm => by cases hst.sellingMenu.symm.trans hm
  | @bind _ _ menu title hcurrent hscreen htitle hwaiting hnew hrecent hmanual =>
      refine { h with unbound := fun menu' ho hm => ?_ }
      obtain rfl : menu = menu' := Option.some.inj hm
      rw [nativeSaleTitle_plainText] at htitle
      have := h.late menu title ho hcurrent hscreen htitle hwaiting
      omega
  | ask hscreen hbound next =>
      exact { h with late := fun menu title ho hc hs => by cases hscreen.symm.trans hs }
  | say hsay =>
      obtain ⟨text, rfl | rfl⟩ := hsay <;> exact h.record (by simp)
  | visit => exact h.edit rfl id fun _ hm => hm
  | reserve hsend before => exact h.edit rfl id fun _ hm => hm
  | @move _ menu transfers slot moment hsend before hready hmanual hslot hmoment =>
      have hold : ∀ {e}, (∀ m i moment', e ≠ .quickMove m i moment') →
          e ∈ b.log ++ [.quickMove menu b.st.nextSlot moment] → e ∈ b.log := fun hne he =>
        (List.mem_append.mp he).resolve_right fun hlast => hne _ _ _ (List.mem_singleton.mp hlast)
      have hopened : ∀ menu' manual', .opened menu' manual' ∈
          b.log ++ [.quickMove menu b.st.nextSlot moment] → .opened menu' manual' ∈ b.log :=
        fun menu' manual' ho => hold (by simp) ho
      have hclosed : ∀ menu' manual', .closed menu' manual' ∈
          b.log ++ [.quickMove menu b.st.nextSlot moment] → .closed menu' manual' ∈ b.log :=
        fun menu' manual' ho => hold (by simp) ho
      refine ⟨?_, ?_, ?_, ?_, ?_, ?_⟩
      · exact fun menu' manual' ho => h.opened menu' manual' (hopened menu' manual' ho)
      · exact fun menu' manual' ho => h.closed menu' manual' (hclosed menu' manual' ho)
      · exact fun menu' ho => h.unbound menu' (hopened menu' true ho)
      · exact fun menu' title ho => h.late menu' title (hopened menu' true ho)
      · intro menu' i moment' ho
        rcases List.mem_append.mp ho with ho | ho
        · exact h.unharmed.unmoved menu' i moment' ho
        · cases List.mem_singleton.mp ho
          rw [hmoment]
          exact hmanual
      · exact fun menu' hc ho => h.unharmed.unclosed menu' (hclosed menu' true hc) (hopened menu' true ho)

theorem Act.clock_le (hact : Act now manual moving b b') : b.mc.clock ≤ b'.mc.clock := by
  cases hact with
  | elapse n => exact Int.le_add_of_nonneg_right (Int.natCast_nonneg n)
  | close hcurrent hbound =>
      rw [Bot.closeContainer_eq hcurrent]
      exact Int.le_refl _
  | _ => exact Int.le_refl _

/-! ### Steps -/

/-- The menus of manual windows are safe at the present. -/
def Untouched (b : Bot) : Prop := Sound b ∧ Aloof b.mc.clock b

theorem Aloof.elapse (h : Aloof b.mc.clock b) (n : ℕ) : Aloof (b.elapse n).mc.clock (b.elapse n) := by
  have hle : b.mc.clock ≤ (b.elapse n).mc.clock := Int.le_add_of_nonneg_right (Int.natCast_nonneg n)
  exact (h.mono hle).game (Nat.le_refl _) fun title hs => ⟨hs, rfl⟩

theorem Untouched.tick (h : Untouched b) (gson : String → Option SaleConfig) (t : Tick) :
    Untouched (b.tick gson t) := by
  have hacts : ∀ {moving : Bool} {b₁ b₂ : Bot} {now : ℤ}, Acts now (t.manual now) moving b₁ b₂ →
      Sound b₁ ∧ Aloof now b₁ ∧ now ≤ b₁.mc.clock → Sound b₂ ∧ Aloof now b₂ ∧ now ≤ b₂.mc.clock := by
    intro moving b₁ b₂ now hacts h₁
    refine hacts.keeps (P := fun b => Sound b ∧ Aloof now b ∧ now ≤ b.mc.clock) ?_ h₁
    rintro b₁ b₂ ⟨hs, ha, hle⟩ hact
    exact ⟨hs.act hact, ha.act hs hact, hle.trans hact.clock_le⟩
  have helapse : Sound (b.elapse t.elapsed) ∧
      Aloof (b.elapse t.elapsed).mc.clock (b.elapse t.elapsed) ∧
      (b.elapse t.elapsed).mc.clock ≤ (b.elapse t.elapsed).mc.clock :=
    ⟨h.1.elapse _, h.2.elapse _, Int.le_refl _⟩
  refine Bot.tick_keeps h.1 (fun b' hb => ?_) fun b' hb => ⟨hb.1.caught _ _, ?_⟩
  · cases hb with
    | idle hb =>
        obtain ⟨hs, ha, hle⟩ := hacts hb helapse
        exact ⟨hs, ha.mono hle⟩
    | transferred happroach hbefore hb =>
        obtain ⟨hs, ha, hle⟩ := hacts hb (hacts hbefore helapse)
        exact ⟨hs, ha.mono hle⟩
  · have hrecord : Aloof _ ((b'.elapse t.beforeCatch).record (.failed .game)) :=
      (hb.2.elapse t.beforeCatch).record (by simp)
    rcases b'.caught_eq t.beforeCatch .game with ⟨heq, -⟩ | ⟨st, hst, heq⟩
    · rw [heq]
      exact hrecord
    · rw [heq]
      subst hst
      exact hrecord.edit rfl id fun _ hm => hm

theorem Aloof.credit (h : Aloof now b) (menu : Menu) (f : SellTransfers → SellTransfers) :
    Aloof now (b.credit menu f) := by
  have hcredited : ∀ n, Aloof now { b with log := b.log ++ List.replicate n (.credited menu) } := by
    intro n
    induction n with
    | zero => simpa using h
    | succ n ih =>
        rw [List.replicate_succ', ← List.append_assoc]
        exact Aloof.record ih (by simp)
  exact (hcredited _).edit rfl id fun _ hm => hm

theorem Untouched.credit (h : Untouched b) {menu : Menu} {f : SellTransfers → SellTransfers}
    (hf : b.st.transfers.Credits (f b.st.transfers)) : Untouched (b.credit menu f) :=
  ⟨h.1.credit hf, h.2.credit menu f⟩

theorem Untouched.inventoryMessage (h : Untouched b) (message : List Char) (n : ℕ) :
    Untouched (b.inventoryMessage message n) := by
  refine ⟨h.1.inventoryMessage message n, ?_⟩
  unfold Bot.inventoryMessage
  dsimp only
  split
  · exact (h.2.elapse n).edit rfl id fun _ hm => hm
  · exact h.2.elapse n

theorem Untouched.serverMessage (h : Untouched b) (message : List Char) (n : ℕ) :
    Untouched (b.serverMessage message n) := by
  refine ⟨h.1.serverMessage message n, ?_⟩
  have hb := h.inventoryMessage message n
  unfold Bot.serverMessage
  generalize b.inventoryMessage message n = b' at hb ⊢
  dsimp only
  split
  · have hedit : Aloof _ { b' with state := some { b'.st with recovery := b'.st.recovery.confirmed } } :=
      hb.2.edit rfl id fun _ hm => hm
    split
    · exact hedit
    · exact hedit.credit _ _
  · exact hb.2

theorem Untouched.inventoryAck (h : Untouched b) (menu slot : ℤ) (items : List (Option Stack)) :
    Untouched (b.inventoryAck menu slot items) := by
  refine ⟨h.1.inventoryAck menu slot items, ?_⟩
  have hclock : ∀ {b₁ b₂ : Bot}, b₂.mc.clock = b₁.mc.clock → Aloof b₁.mc.clock b₂ →
      Aloof b₂.mc.clock b₂ := fun heq ha => heq ▸ ha
  unfold Bot.inventoryAck
  generalize hb₁ : (if slot = -1 ∧ b.mc.containerMenu.any (·.containerId = menu) then
    ({ b with mc := { b.mc with received := true } } : Bot) else b) = b₁
  have h₁ : Aloof b₁.mc.clock b₁ := by
    subst hb₁
    split
    · exact h.2.game (Nat.le_refl _) fun title hs => ⟨hs, rfl⟩
    · exact h.2
  dsimp only
  split
  · exact h₁
  · rename_i st hstate
    generalize hb₂ : (if menu = st.contentMenu ∧ slot = -1 then
      b₁.edit (fun st => { st with contentReady := true }) else b₁) = b₂
    have h₂ : Aloof b₂.mc.clock b₂ := by
      subst hb₂
      split
      · exact h₁.edit rfl id fun _ hm => hm
      · exact h₁
    split
    · exact h₂
    · split
      · split
        · exact h₂.credit _ _
        · exact h₂.credit _ _
      · exact h₂

/-- No sale menu is opened in a manual window while a request of the last 15 seconds waits. -/
def Untroubled (b : Bot) : Input → Prop
  | .opened _ title elapsed settings =>
      let b := b.elapse elapsed
      Settings.long settings "sell-manual-until" > b.mc.clock → b.st.waiting →
        b.mc.clock - b.st.requested < 15000 → ¬ nativeSaleTitle title
  | _ => True

/-- A menu that is opened is shown, and not bound. -/
theorem Aloof.shown (h : Aloof now b) (hsound : Sound b) {p : Player} (hp : b.mc.player = some p)
    {containerId : ℤ} {title : List Char} (hlate : manual = true → nativeSaleTitle title →
      b.st.waiting → 15000 ≤ now - b.st.requested) :
    Aloof now (b.shown containerId title manual) := by
  have hmenus : (b.mc.openScreen containerId title).menus = b.mc.menus + 1 := by
    simp [Minecraft.openScreen, hp]
  have hold : ∀ {e}, (∀ m manual', e ≠ .opened m manual') →
      e ∈ b.log ++ [.opened ⟨b.mc.menus, containerId⟩ manual] → e ∈ b.log := fun hne he =>
    (List.mem_append.mp he).resolve_right fun hlast => hne _ _ (List.mem_singleton.mp hlast)
  refine ⟨?_, ?_, ?_, ?_, ?_, ?_⟩
  · intro menu manual' ho
    change _ < (b.mc.openScreen containerId title).menus
    rw [hmenus]
    rcases List.mem_append.mp ho with ho | ho
    · exact Nat.lt_succ_of_lt (h.opened menu manual' ho)
    · cases List.mem_singleton.mp ho
      exact Nat.lt_succ_self _
  · intro menu manual' hc
    change _ < (b.mc.openScreen containerId title).menus
    rw [hmenus]
    exact Nat.lt_succ_of_lt (h.closed menu manual' (hold (by simp) hc))
  · intro menu ho hm
    rcases List.mem_append.mp ho with ho | ho
    · exact h.unbound menu ho hm
    · cases List.mem_singleton.mp ho
      exact Nat.lt_irrefl _ (hsound.bound _ hm)
  · intro menu title' ho hc hs ht hw
    have htitle : title = title' := by
      simpa [Bot.shown, Minecraft.openScreen, hp] using hs
    rcases List.mem_append.mp ho with ho | ho
    · have hfresh := h.opened menu true ho
      have := Minecraft.openScreen_showing hp ⟨hc, title', hs⟩
      omega
    · cases List.mem_singleton.mp ho
      exact hlate rfl (htitle ▸ ht) hw
  · exact fun menu i moment ho => h.unharmed.unmoved menu i moment (hold (by simp) ho)
  · intro menu hc ho
    rcases List.mem_append.mp ho with ho | ho
    · exact h.unharmed.unclosed menu (hold (by simp) hc) ho
    · cases List.mem_singleton.mp ho
      exact Nat.lt_irrefl _ (h.closed _ _ (hold (by simp) hc))

theorem Untouched.opened (h : Untouched b) {containerId : ℤ} {title : List Char} {n : ℕ}
    {settings : Option Settings} (huntroubled : Untroubled b (.opened containerId title n settings)) :
    Untouched (b.opened containerId title n settings) := by
  refine ⟨h.1.opened containerId title n settings, ?_⟩
  have hsound := h.1.elapse n
  have haloof := h.2.elapse n
  rcases b.opened_cases containerId title n settings with heq | ⟨p, hp, hopened⟩
  · exact heq ▸ haloof
  have hp : (b.elapse n).mc.player = some p := hp
  have hcalm : Settings.long settings "sell-manual-until" > (b.elapse n).mc.clock →
      (b.elapse n).st.waiting → (b.elapse n).mc.clock - (b.elapse n).st.requested < 15000 →
      ¬ nativeSaleTitle title := huntroubled
  generalize b.elapse n = b₁ at hsound haloof hp hopened hcalm
  generalize b.opened containerId title n settings = b₂ at hopened ⊢
  have hclock : (b₁.mc.openScreen containerId title).clock = b₁.mc.clock := by
    simp [Minecraft.openScreen, hp]
  set manual := decide (Settings.long settings "sell-manual-until" > b₁.mc.clock) with hlong
  have hshown : Aloof b₁.mc.clock (b₁.shown containerId title manual) := by
    refine haloof.shown hsound hp fun hmanual htitle hwaiting => ?_
    by_contra hrecent
    exact hcalm (by simpa [hlong] using hmanual) hwaiting (by omega) htitle
  have hunready : Aloof b₁.mc.clock
      { b₁.shown containerId title manual with state := some (b₁.st.unready containerId) } :=
    hshown.edit rfl id fun _ hm => hm
  cases hopened with
  | unknown hstate =>
      change Aloof (b₁.mc.openScreen containerId title).clock _
      rw [hclock]
      exact hshown
  | kept =>
      change Aloof (b₁.mc.openScreen containerId title).clock _
      rw [hclock]
      exact hunready
  | bound hwaiting hrequested hrecent htitle =>
      change Aloof (b₁.mc.openScreen containerId title).clock _
      rw [hclock]
      refine { hunready with
        unbound := fun menu ho hm => ?_ }
      obtain rfl : ⟨b₁.mc.menus, containerId⟩ = menu := Option.some.inj hm
      rcases List.mem_append.mp ho with ho | ho
      · exact Nat.lt_irrefl _ (haloof.opened _ _ ho)
      · have hmanual := (SaleEvent.opened.inj (List.mem_singleton.mp ho)).2
        exact hcalm (by simpa [hlong] using hmanual.symm) hwaiting hrecent htitle
  | discarded hover =>
      have hcurrent : (b₁.mc.openScreen containerId title).containerMenu =
          some ⟨b₁.mc.menus, containerId⟩ := by
        simp [Minecraft.openScreen, Minecraft.containerMenu, hp]
      have hclose := hunready.close
        (hsound.shown hp containerId title) hcurrent (fun hm => by cases hover.symm.trans hm)
      rw [Bot.closeContainer_eq hcurrent] at hclose ⊢
      change Aloof (b₁.mc.openScreen containerId title).clock _
      rw [hclock]
      exact hclose

theorem Untouched.disconnected (h : Untouched b) : Untouched b.disconnected :=
  ⟨h.1.disconnected, h.2.opened, h.2.closed, nofun, fun _ _ _ _ _ _ hw => (nomatch hw), h.2.unharmed⟩

theorem Untouched.collected (h : Untouched b) : Untouched b.collected := by
  refine ⟨h.1.collected, ?_⟩
  unfold Bot.collected
  split
  · rename_i st hstate
    obtain rfl : b.st = st := Bot.st_of_state hstate
    split
    · exact h.2
    · exact h.2.edit rfl id nofun
  · exact h.2

theorem Untouched.step (h : Untouched b) (gson : String → Option SaleConfig) {i : Input}
    (hi : Untroubled b i) : Untouched (b.step gson i) := by
  refine ⟨h.1.step gson i, ?_⟩
  cases i with
  | tick t => exact (h.tick gson t).2
  | opened containerId title n settings => exact (h.opened hi).2
  | inventoryAck menu slot items => exact (h.inventoryAck menu slot items).2
  | inventoryMessage message n => exact (h.inventoryMessage message n).2
  | serverMessage message n => exact (h.serverMessage message n).2
  | disconnected => exact h.disconnected.2
  | closes => exact h.2.game (Nat.le_refl _) fun title hs => nomatch hs
  | shows screen =>
      refine h.2.game (Nat.le_refl _) fun title hs => ?_
      cases screen <;> cases hs
  | joins hash level => exact h.2.game (Nat.le_succ _) fun title hs => nomatch hs
  | leaves => exact h.2.game (Nat.le_refl _) fun title hs => nomatch hs
  | collected => exact h.collected.2
  | renewed deadline n =>
      have hb := h.2.elapse n
      exact ⟨hb.opened, hb.closed, hb.unbound, hb.late, hb.unharmed⟩

theorem manual_menus_unharmed (gson : String → Option SaleConfig) (clock : ℤ) (inputs : List Input)
    (h : Meets (Bot.step gson) Untroubled (.init clock) inputs) :
    Along (Bot.step gson) (fun b => Unharmed b.log) (.init clock) inputs := by
  have hnone : ∀ event, event ∉ (Bot.init clock).log := fun _ => List.not_mem_nil
  have hinit : Untouched (.init clock) := by
    refine ⟨sound_init clock, ?_, ?_, ?_, ?_, ?_, ?_⟩
    · exact fun menu manual ho => absurd ho (hnone _)
    · exact fun menu manual ho => absurd ho (hnone _)
    · exact fun menu ho => absurd ho (hnone _)
    · exact fun menu title ho => absurd ho (hnone _)
    · exact fun menu i moment ho => absurd ho (hnone _)
    · exact fun menu ho => absurd ho (hnone _)
  exact (along_of_preserved (fun b i hb hi => hb.step gson hi) hinit h).mono fun b hb => hb.2.unharmed

/-! ### Two runs -/

instance (b : Bot) (i : Input) : Decidable (Untroubled b i) := by
  unfold Untroubled
  split <;> infer_instance

/-- A request waits, and the player opens a menu of this title in a manual window. -/
def manualMenu (title : String) : List Input :=
  let manual : Settings := fun key =>
    if key = "sell-manual-until" then some (.number 8000) else saleSettings key
  [.joins 7 1, .renewed 60000 0, .tick (fullTick 0 none), .tick (fullTick 2000 none),
    .opened 3 title.toList 50 (some manual), .tick { fullTick 50 none with settings := some manual }]

theorem manual_menus_unharmed_other :
    Along (Bot.step readEntry) (fun b => Unharmed b.log) (.init 1000) (manualMenu "Lager") :=
  manual_menus_unharmed readEntry 1000 (manualMenu "Lager") (by decide +kernel)

theorem manual_menus_harmed :
    ¬ Along (Bot.step readEntry) (fun b => Unharmed b.log) (.init 1000) (manualMenu "Sell") := by
  intro h
  exact h.last.unclosed ⟨1, 3⟩ (by decide +kernel) (by decide +kernel)

end AfkClient.Native

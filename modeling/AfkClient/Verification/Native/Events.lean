import AfkClient.Verification.Native.Acts

/-! What the steps of a bot add to the record of its game thread. -/

namespace AfkClient.Native

/-- An event that no tick is needed for. -/
def SaleEvent.Plain : SaleEvent → Prop
  | .opened .. | .credited .. | .closed .. => True
  | _ => False

/-- Events of one kind follow those of before. -/
def Adds (P : SaleEvent → Prop) (log log' : List SaleEvent) : Prop :=
  ∃ events, log' = log ++ events ∧ ∀ event ∈ events, P event

variable {P Q : SaleEvent → Prop} {log log' log'' : List SaleEvent} {event : SaleEvent}

theorem Adds.refl (P : SaleEvent → Prop) (log : List SaleEvent) : Adds P log log := ⟨[], by simp, by simp⟩

theorem Adds.trans (h : Adds P log log') (h' : Adds P log' log'') : Adds P log log'' := by
  obtain ⟨events, rfl, he⟩ := h
  obtain ⟨events', rfl, he'⟩ := h'
  refine ⟨events ++ events', by simp, fun event hmem => ?_⟩
  rcases List.mem_append.mp hmem with hmem | hmem
  · exact he event hmem
  · exact he' event hmem

theorem Adds.mono (h : Adds P log log') (hPQ : ∀ event, P event → Q event) : Adds Q log log' := by
  obtain ⟨events, heq, he⟩ := h
  exact ⟨events, heq, fun event hmem => hPQ event (he event hmem)⟩

theorem Adds.record (h : P event) : Adds P log (log ++ [event]) :=
  ⟨[event], rfl, by simpa using h⟩

/-! ### In a tick -/

theorem Bot.closeContainer_adds (b : Bot) (manual : Bool) :
    Adds SaleEvent.Plain b.log (b.closeContainer manual).log := by
  unfold Bot.closeContainer
  split
  · exact Adds.record trivial
  · exact Adds.refl _ _

theorem Bot.caught_log (b : Bot) (elapsed : ℕ) (e : Thrown) :
    (b.caught elapsed e).log = b.log ++ [.failed e] := by
  unfold Bot.caught
  dsimp only
  split <;> rfl

/-! ### Between the ticks -/

theorem adds_credit (b : Bot) (menu : Menu) (f : SellTransfers → SellTransfers) :
    Adds SaleEvent.Plain b.log (b.credit menu f).log := by
  refine ⟨_, rfl, fun event hmem => ?_⟩
  rw [(List.mem_replicate.mp hmem).2]
  trivial

theorem inventoryMessage_log (b : Bot) (message : List Char) (n : ℕ) :
    (b.inventoryMessage message n).log = b.log := by
  unfold Bot.inventoryMessage
  dsimp only
  split <;> rfl

theorem adds_serverMessage (b : Bot) (message : List Char) (n : ℕ) :
    Adds SaleEvent.Plain b.log (b.serverMessage message n).log := by
  have hb := inventoryMessage_log b message n
  unfold Bot.serverMessage
  generalize b.inventoryMessage message n = b' at hb ⊢
  rw [← hb]
  dsimp only
  split
  · split
    · exact Adds.refl _ _
    · exact adds_credit (b'.edit fun st => { st with recovery := st.recovery.confirmed }) _ _
  · exact Adds.refl _ _

theorem adds_inventoryAck (b : Bot) (menu slot : ℤ) (items : List (Option Stack)) :
    Adds SaleEvent.Plain b.log (b.inventoryAck menu slot items).log := by
  unfold Bot.inventoryAck
  generalize hb₁ : (if slot = -1 ∧ b.mc.containerMenu.any (·.containerId = menu) then
    ({ b with mc := { b.mc with received := true } } : Bot) else b) = b₁
  have hlog : b₁.log = b.log := by subst hb₁; split <;> rfl
  rw [← hlog]
  dsimp only
  split
  · exact Adds.refl _ _
  · rename_i st hstate
    generalize hb₂ : (if menu = st.contentMenu ∧ slot = -1 then
      b₁.edit (fun st => { st with contentReady := true }) else b₁) = b₂
    have hlog₂ : b₂.log = b₁.log := by subst hb₂; split <;> rfl
    rw [← hlog₂]
    split
    · exact Adds.refl _ _
    · split
      · split
        · exact adds_credit _ _ _
        · exact adds_credit _ _ _
      · exact Adds.refl _ _

theorem adds_opened (b : Bot) (containerId : ℤ) (title : List Char) (n : ℕ)
    (settings : Option Settings) : Adds SaleEvent.Plain b.log (b.opened containerId title n settings).log := by
  rcases b.opened_cases containerId title n settings with heq | ⟨p, hp, hopened⟩
  · rw [heq]
    exact Adds.refl _ _
  have hp : (b.elapse n).mc.player = some p := hp
  rw [← b.elapse_log n]
  generalize b.elapse n = b₁ at hp hopened ⊢
  generalize b.opened containerId title n settings = b₂ at hopened ⊢
  have hshown : ∀ manual, Adds SaleEvent.Plain b₁.log (b₁.shown containerId title manual).log :=
    fun manual => Adds.record trivial
  cases hopened with
  | unknown hstate => exact hshown _
  | kept => exact hshown _
  | bound => exact hshown _
  | discarded hover =>
      have hcurrent : (b₁.mc.openScreen containerId title).containerMenu =
          some ⟨b₁.mc.menus, containerId⟩ := by
        simp [Minecraft.openScreen, Minecraft.containerMenu, hp]
      rw [Bot.closeContainer_eq hcurrent]
      exact (hshown _).trans (Adds.record trivial)

/-- Between the ticks menus are opened and closed and transfers confirmed, and no more. -/
theorem adds_step (b : Bot) (gson : String → Option SaleConfig) {i : Input}
    (hi : ∀ t, i ≠ .tick t) : Adds SaleEvent.Plain b.log (b.step gson i).log := by
  cases i with
  | tick t => exact absurd rfl (hi t)
  | opened containerId title n settings => exact adds_opened b containerId title n settings
  | inventoryAck menu slot items => exact adds_inventoryAck b menu slot items
  | inventoryMessage message n =>
      change Adds SaleEvent.Plain _ (b.inventoryMessage message n).log
      rw [inventoryMessage_log]
      exact Adds.refl _ _
  | serverMessage message n => exact adds_serverMessage b message n
  | collected =>
      have hlog : b.collected.log = b.log := by
        unfold Bot.collected
        split
        · split <;> rfl
        · rfl
      change Adds SaleEvent.Plain _ b.collected.log
      rw [hlog]
      exact Adds.refl _ _
  | _ => exact Adds.refl _ _

end AfkClient.Native

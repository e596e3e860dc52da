import AfkClient.Library.Run
import AfkClient.Model.BedrockInventory

/-! # Transfers into a sell menu

What goes over the wire is guarded by the state of the moment, an answer counts for the transfer
that waits for it and for no other one, and a lost packet ends every transfer until the server has
sent the whole inventory again. -/

namespace AfkClient.BedrockInventory

def Output.asTransfer : Output → Option (Transfer × Bool)
  | .transfer move sent => some (move, sent)
  | _ => none

namespace Inventory

/-- The transfers so far, and whether they went out. -/
def transfers (s : Inventory) : List (Transfer × Bool) := s.outbox.filterMap Output.asTransfer

@[simp] theorem transfers_emit (output : Output) (s : Inventory) :
    (s.emit output).transfers = s.transfers ++ output.asTransfer.toList := by
  rw [transfers, emit, List.filterMap_append]
  cases hout : output.asTransfer <;> simp [transfers, hout]

/-- Nothing is transferred, and what waits is kept or given up. -/
structure Quiet (s t : Inventory) : Prop where
  transfers : t.transfers = s.transfers
  nextRequestId : t.nextRequestId ≤ s.nextRequestId
  pending : t.pending = s.pending ∨ t.pending = none
  targets : t.targets = s.targets ∨ t.targets = none

variable {s t u : Inventory}

namespace Quiet

@[refl] theorem refl (s : Inventory) : Quiet s s := ⟨rfl, le_rfl, .inl rfl, .inl rfl⟩

theorem trans (h : Quiet s t) (h' : Quiet t u) : Quiet s u where
  transfers := h'.transfers.trans h.transfers
  nextRequestId := h'.nextRequestId.trans h.nextRequestId
  pending := by
    rcases h'.pending with hpending | hpending
    · exact hpending ▸ h.pending
    · exact .inr hpending
  targets := by
    rcases h'.targets with htargets | htargets
    · exact htargets ▸ h.targets
    · exact .inr htargets

end Quiet

/-! ### Steps that transfer nothing -/

theorem quiet_emit {output : Output} (h : output.asTransfer = none) (s : Inventory) :
    Quiet s (s.emit output) := by
  refine ⟨?_, le_rfl, .inl rfl, .inl rfl⟩
  rw [transfers_emit, h]
  exact List.append_nil _

theorem Quiet.emit {output : Output} (h : Quiet s t) (hout : output.asTransfer = none) :
    Quiet s (t.emit output) := h.trans (quiet_emit hout t)

theorem quiet_cancelMultiplierScan (s : Inventory) : Quiet s s.cancelMultiplierScan := by
  rw [cancelMultiplierScan]
  split
  · exact (quiet_emit rfl s).trans ⟨rfl, le_rfl, .inl rfl, .inl rfl⟩
  · exact ⟨rfl, le_rfl, .inl rfl, .inl rfl⟩

theorem quiet_release (s : Inventory) : Quiet s s.release := ⟨rfl, le_rfl, .inr rfl, .inr rfl⟩

theorem quiet_close (s : Inventory) : Quiet s s.close := by
  rw [close]
  split
  · rename_i menu hmenu
    have hemit : Quiet s (s.emit (.close menu.id menu.type)) := quiet_emit rfl s
    exact hemit.trans ⟨rfl, le_rfl, .inr rfl, .inr rfl⟩
  · exact ⟨rfl, le_rfl, .inr rfl, .inr rfl⟩

theorem Quiet.close (h : Quiet s t) : Quiet s t.close := h.trans (quiet_close t)

/-- A menu that is closed has no targets left. -/
theorem quiet_closeDone (targets : Option (List ℕ)) (s : Inventory) :
    Quiet s { s with targets := targets }.close := by
  have hclose := quiet_close { s with targets := targets }
  exact ⟨hclose.transfers, hclose.nextRequestId, .inr rfl, .inr rfl⟩

theorem quiet_interrupt (now : ℚ) (closeForeign manualSell : Bool) (s : Inventory) :
    Quiet s (s.interrupt now closeForeign manualSell) := by
  refine (quiet_cancelMultiplierScan s).trans ?_
  rw [interrupt]
  generalize s.cancelMultiplierScan = t
  have hguard : Quiet t (if closeForeign then t.guardManual now manualSell else t) := by
    split
    · exact ⟨rfl, le_rfl, .inl rfl, .inl rfl⟩
    · exact Quiet.refl t
  refine hguard.trans ?_
  generalize (if closeForeign then t.guardManual now manualSell else t) = u
  refine Quiet.trans ?_ (quiet_release _)
  split
  · exact quiet_close u
  · exact Quiet.refl u

theorem quiet_logFailure (now : ℚ) (reason : String) (s : Inventory) :
    Quiet s (s.logFailure now reason) := by
  rw [logFailure]
  split
  · exact ⟨(quiet_emit rfl _).transfers, le_rfl, .inl rfl, .inl rfl⟩
  · exact Quiet.refl s

theorem Quiet.logFailure {now : ℚ} {reason : String} (h : Quiet s t) :
    Quiet s (t.logFailure now reason) := h.trans (quiet_logFailure now reason t)

theorem quiet_fail (now : ℚ) (reason : String) (s : Inventory) : Quiet s (s.fail now reason) :=
  (quiet_logFailure now reason s).trans (quiet_interrupt now false false _)

@[simp] theorem targets_interrupt (now : ℚ) (closeForeign manualSell : Bool) (s : Inventory) :
    (s.interrupt now closeForeign manualSell).targets = none := rfl

@[simp] theorem pending_interrupt (now : ℚ) (closeForeign manualSell : Bool) (s : Inventory) :
    (s.interrupt now closeForeign manualSell).pending = none := rfl

theorem quiet_invalidateAfterDecodeFailure (now : ℚ) (s : Inventory) :
    Quiet s (s.invalidateAfterDecodeFailure now) := by
  have hinterrupt := quiet_interrupt now false false
    { s with needsFullPlayerContent := true, player := none }
  exact ⟨hinterrupt.transfers, hinterrupt.nextRequestId, .inr rfl, .inr rfl⟩

theorem quiet_onOpen (now : ℚ) (id : WindowId) (type : String) (position : Option String)
    (s : Inventory) : Quiet s (s.onOpen now id type position) := by
  rw [onOpen]
  simp only
  split
  · exact Quiet.close ⟨rfl, le_rfl, .inr rfl, .inr rfl⟩
  · exact ⟨rfl, le_rfl, .inr rfl, .inr rfl⟩

theorem quiet_onBlockEntity (now : ℚ) (position title : Option String) (s : Inventory) :
    Quiet s (s.onBlockEntity now position title) := by
  unfold onBlockEntity
  split
  · simp only
    split
    · split
      · split
        · exact Quiet.close ⟨rfl, le_rfl, .inl rfl, .inl rfl⟩
        · exact ⟨rfl, le_rfl, .inl rfl, .inl rfl⟩
      · exact ⟨rfl, le_rfl, .inl rfl, .inl rfl⟩
    · exact ⟨rfl, le_rfl, .inl rfl, .inl rfl⟩
  · exact Quiet.refl s

theorem quiet_onClose (id : WindowId) (s : Inventory) : Quiet s (s.onClose id) := by
  rw [onClose]
  split
  · simp only
    split
    · exact (quiet_cancelMultiplierScan s).trans ⟨rfl, le_rfl, .inr rfl, .inr rfl⟩
    · exact ⟨rfl, le_rfl, .inr rfl, .inr rfl⟩
  · exact Quiet.refl s

theorem quiet_confirmLegacyTransfer (authoritative : Bool) (s : Inventory) :
    Quiet s (s.confirmLegacyTransfer authoritative) := by
  rw [confirmLegacyTransfer]
  split
  · split
    · exact ⟨rfl, le_rfl, .inr rfl, .inl rfl⟩
    · exact Quiet.refl s
  · exact Quiet.refl s

theorem Quiet.confirmLegacyTransfer {authoritative : Bool} (h : Quiet s t) :
    Quiet s (t.confirmLegacyTransfer authoritative) :=
  h.trans (quiet_confirmLegacyTransfer authoritative t)

theorem quiet_onContent (authoritative : Bool) (id : WindowId) (input : Option (List BedrockItem))
    (s : Inventory) : Quiet s (s.onContent authoritative id input) := by
  unfold onContent
  split
  · exact Quiet.refl s
  · split
    · split
      · exact Quiet.refl s
      · exact Quiet.confirmLegacyTransfer ⟨rfl, le_rfl, .inl rfl, .inl rfl⟩
    · exact Quiet.confirmLegacyTransfer ⟨rfl, le_rfl, .inl rfl, .inl rfl⟩

theorem quiet_onSlot (authoritative : Bool) (id : WindowId) (slot : ℤ) (item : BedrockItem)
    (s : Inventory) : Quiet s (s.onSlot authoritative id slot item) := by
  rw [onSlot]
  split
  · exact Quiet.refl s
  · split
    · split
      · exact Quiet.refl s
      · exact Quiet.confirmLegacyTransfer ⟨rfl, le_rfl, .inl rfl, .inl rfl⟩
    · exact Quiet.confirmLegacyTransfer ⟨rfl, le_rfl, .inl rfl, .inl rfl⟩

theorem quiet_updateContainer (item : BedrockItem) (s : Inventory)
    (update : String × List ResponseSlot) : Quiet s (updateContainer item s update) := by
  rw [updateContainer]
  split
  · exact ⟨rfl, le_rfl, .inl rfl, .inl rfl⟩
  · split
    · exact ⟨rfl, le_rfl, .inl rfl, .inl rfl⟩
    · exact Quiet.refl s

theorem quiet_foldl {α : Type*} {f : Inventory → α → Inventory} (hf : ∀ s a, Quiet s (f s a))
    (as : List α) (s : Inventory) : Quiet s (as.foldl f s) := by
  induction as generalizing s with
  | nil => exact Quiet.refl s
  | cons a as ih => exact (hf s a).trans (ih (f s a))

theorem quiet_respond (now : ℚ) (s : Inventory) (response : Response) :
    Quiet s (s.respond now response) := by
  unfold respond
  split
  · rename_i pending hpending
    split
    · exact Quiet.refl s
    · split
      · exact Quiet.logFailure ⟨rfl, le_rfl, .inr rfl, .inl rfl⟩
      · exact (quiet_foldl (quiet_updateContainer pending.item) response.containers s).trans
          ⟨rfl, le_rfl, .inr rfl, .inl rfl⟩
  · exact Quiet.refl s

theorem quiet_onEquipment (selectedSlot : ℤ) (item : BedrockItem) (s : Inventory) :
    Quiet s (s.onEquipment selectedSlot item) := by
  rw [onEquipment]
  split
  · exact Quiet.refl s
  · exact ⟨rfl, le_rfl, .inl rfl, .inl rfl⟩

theorem quiet_reset (s : Inventory) : Quiet s s.reset := by
  exact (quiet_cancelMultiplierScan s).trans ⟨rfl, le_rfl, .inr rfl, .inr rfl⟩

theorem quiet_tickMultipliers (now : ℚ) (s : Inventory) : Quiet s (s.tickMultipliers now) := by
  unfold tickMultipliers
  split
  · exact Quiet.refl s
  · simp only
    split
    · exact Quiet.emit (Quiet.close ⟨rfl, le_rfl, .inl rfl, .inl rfl⟩) rfl
    · split
      · refine Quiet.emit ?_ rfl
        split
        · exact Quiet.close ⟨rfl, le_rfl, .inl rfl, .inl rfl⟩
        · exact ⟨rfl, le_rfl, .inl rfl, .inl rfl⟩
      · exact Quiet.refl s

/-! ### Ticks -/

/-- What has to hold where an item goes from the player into a menu. -/
structure Guarded (t : Tick) (s : Inventory) (transfer : Transfer) : Prop where
  synchronized : s.synchronized
  idle : s.pending = none
  requestId : transfer.requestId = s.nextRequestId
  menu : ∃ menu items, s.container = some menu ∧ menu.owned ∧ menu.id = transfer.menu ∧
    t.now - s.openedAt < 10_000 ∧ menu.items = some items ∧
    transfer.destination < items.length ∧ presentAt items transfer.destination = none
  item : ∃ player, s.player = some player ∧
    presentAt player transfer.source = some transfer.item
  stack : t.authoritative → ∃ stackId, transfer.item.stackId = some stackId ∧ 0 < stackId
  count : transfer.count = min 255 (transfer.item.count.getD 0)

/-- One transfer is tried, and waits for its answer if it went out. -/
structure Sends (t : Tick) (s u : Inventory) (transfer : Transfer) (rest : List ℕ) : Prop where
  transfers : u.transfers = s.transfers ++ [(transfer, t.sent)]
  nextRequestId : u.nextRequestId ≤ s.nextRequestId - 1
  pending : ∀ pending, u.pending = some pending → t.sent ∧ pending =
    ⟨transfer.requestId, transfer.source, transfer.destination, transfer.item, t.now⟩
  targets : u.targets = some rest ∨ u.targets = none

theorem presentAt_eq_none_of_findIdx? {items : Slots} {slot : ℕ}
    (h : (items.findIdx? fun item => !item.any present) = some slot) :
    slot < items.length ∧ presentAt items slot = none := by
  obtain ⟨hlt, hslot, -⟩ := List.findIdx?_eq_some_iff_getElem.mp h
  refine ⟨hlt, ?_⟩
  rw [presentAt, List.getElem?_eq_getElem hlt, Option.bind_some, id]
  cases hitem : items[slot] with
  | none => rfl
  | some item =>
      rw [hitem] at hslot
      simpa [Option.filter] using hslot

theorem send_cases (t : Tick) (menu : WindowId) (source destination : ℕ) (item : BedrockItem)
    (rest : List ℕ) (s : Inventory) :
    Quiet s ({ s with targets := some rest }.send t menu source destination item) ∨
      (t.authoritative → ∃ stackId, item.stackId = some stackId ∧ 0 < stackId) ∧
        Sends t s ({ s with targets := some rest }.send t menu source destination item)
          ⟨s.nextRequestId, t.authoritative, menu, source, destination, item,
            min 255 (item.count.getD 0)⟩ rest := by
  rw [send]
  simp only
  split
  · have hfail := quiet_fail t.clock "Stack-ID fehlt; warte auf Inventarsynchronisation"
      { s with targets := some rest, nextRequestId := s.nextRequestId - 1 }
    exact .inl ⟨hfail.transfers, hfail.nextRequestId.trans (by simp), .inr rfl, .inr rfl⟩
  · rename_i hstack
    refine .inr ⟨fun hauthoritative => ?_, ?_⟩
    · rw [hauthoritative, Bool.true_and, Bool.not_eq_true, Bool.not_eq_false',
        Option.any_eq_true] at hstack
      obtain ⟨stackId, hitem, hpos⟩ := hstack
      exact ⟨stackId, hitem, of_decide_eq_true hpos⟩
    · split
      · rename_i hsent
        refine ⟨transfers_emit _ _, le_rfl, ?_, .inl rfl⟩
        rintro pending ⟨⟩
        exact ⟨hsent, rfl⟩
      · have hfail := quiet_fail t.clock "Item-Transfer konnte nicht gesendet werden"
          (emit (.transfer ⟨s.nextRequestId, t.authoritative, menu, source, destination, item,
            min 255 (item.count.getD 0)⟩ t.sent)
            { s with targets := some rest, nextRequestId := s.nextRequestId - 1 })
        refine ⟨hfail.transfers.trans (transfers_emit _ _), hfail.nextRequestId, ?_, .inr rfl⟩
        intro pending hpending
        cases hpending

/-- A sale that waits for no answer, with everything it has to know. -/
structure Ready (t : Tick) (s : Inventory) (menu : Container) (player items : Slots) : Prop where
  synchronized : s.synchronized
  idle : s.pending = none
  container : s.container = some menu
  owned : menu.owned
  recent : t.now - s.openedAt < 10_000
  items : menu.items = some items
  player : s.player = some player

theorem transferNext_cases {t : Tick} {s : Inventory} {menu : Container} {player items : Slots}
    (hready : Ready t s menu player items) (targets : List ℕ) :
    Quiet s (transferNext t menu.id player items targets s) ∨
      ∃ transfer rest, Guarded t s transfer ∧ List.Sublist (transfer.source :: rest) targets ∧
        Sends t s (transferNext t menu.id player items targets s) transfer rest := by
  induction targets with
  | nil => exact .inl (quiet_closeDone (some []) s)
  | cons source targets ih =>
      rw [transferNext]
      cases hitem : presentAt player source with
      | none =>
          rcases ih with hquiet | ⟨transfer, rest, hguarded, hsub, hsends⟩
          · exact .inl hquiet
          · exact .inr ⟨transfer, rest, hguarded, hsub.cons source, hsends⟩
      | some item =>
          simp only
          cases hfree : items.findIdx? fun slot => !slot.any present with
          | none => exact .inl (quiet_closeDone (some targets) s)
          | some destination =>
              rcases send_cases t menu.id source destination item targets s with
                hquiet | ⟨hstack, hsends⟩
              · exact .inl hquiet
              · obtain ⟨hlt, hempty⟩ := presentAt_eq_none_of_findIdx? hfree
                refine .inr ⟨_, targets, ?_, List.Sublist.refl _, hsends⟩
                exact ⟨hready.synchronized, hready.idle, rfl,
                  ⟨menu, items, hready.container, hready.owned, rfl, hready.recent, hready.items,
                    hlt, hempty⟩,
                  ⟨player, hready.player, hitem⟩, hstack, rfl⟩

theorem tick_cases (t : Tick) (s : Inventory) :
    Quiet s (s.tick t) ∨ ∃ player transfer rest, s.player = some player ∧ Guarded t s transfer ∧
      List.Sublist (transfer.source :: rest) (s.targets.getD (initialTargets player)) ∧
        Sends t s (s.tick t) transfer rest := by
  unfold tick
  split
  · exact .inl (Quiet.refl s)
  · rename_i hawake
    rw [Bool.or_eq_true, not_or, Bool.not_eq_true, Bool.not_eq_true] at hawake
    split
    · split
      · exact .inl (quiet_interrupt t.clock false false s)
      · exact .inl (Quiet.refl s)
    · rename_i menu hmenu
      obtain ⟨hcontainer, howned⟩ := Option.filter_eq_some_iff.mp hmenu
      split
      · exact .inl (quiet_fail _ _ s)
      · rename_i hrecent
        split
        · split
          · exact .inl (quiet_fail _ _ s)
          · exact .inl (Quiet.refl s)
        · rename_i hidle
          split
          · rename_i items player hitems hplayer
            have hready : Ready t s menu player items :=
              ⟨by rw [synchronized, hawake.1]; rfl, hidle, hcontainer, howned,
                lt_of_not_ge hrecent, hitems, hplayer⟩
            rcases transferNext_cases hready (s.targets.getD (initialTargets player)) with
              hquiet | ⟨transfer, rest, hguarded, hsub, hsends⟩
            · exact .inl hquiet
            · exact .inr ⟨player, transfer, rest, hplayer, hguarded, hsub, hsends⟩
          · exact .inl (Quiet.refl s)

end Inventory

open Inventory

/-- Only a tick transfers, and it transfers one item at most. -/
theorem step_cases (s : Inventory) (call : Call) :
    Quiet s (step s call) ∨ ∃ t player transfer rest, call = .tick t ∧ s.player = some player ∧
      Guarded t s transfer ∧
        List.Sublist (transfer.source :: rest) (s.targets.getD (initialTargets player)) ∧
          Sends t s (step s call) transfer rest := by
  cases call with
  | onEquipment selectedSlot item => exact .inl (quiet_onEquipment selectedSlot item s)
  | requestMultipliers now => exact .inl ⟨rfl, le_rfl, .inl rfl, .inl rfl⟩
  | request now => exact .inl ⟨rfl, le_rfl, .inl rfl, .inr rfl⟩
  | reset => exact .inl (quiet_reset s)
  | invalidateAfterDecodeFailure now => exact .inl (quiet_invalidateAfterDecodeFailure now s)
  | clearMenuTitles => exact .inl ⟨rfl, le_rfl, .inl rfl, .inl rfl⟩
  | interrupt now closeForeign manualSell =>
      exact .inl (quiet_interrupt now closeForeign manualSell s)
  | onOpen now id type position => exact .inl (quiet_onOpen now id type position s)
  | onBlockEntity now position title => exact .inl (quiet_onBlockEntity now position title s)
  | onClose id => exact .inl (quiet_onClose id s)
  | onContent authoritative id input => exact .inl (quiet_onContent authoritative id input s)
  | onSlot authoritative id slot item => exact .inl (quiet_onSlot authoritative id slot item s)
  | onResponse now responses => exact .inl (quiet_foldl (quiet_respond now) responses s)
  | tickMultipliers now => exact .inl (quiet_tickMultipliers now s)
  | tick t =>
      rcases tick_cases t s with hquiet | ⟨player, transfer, rest, h⟩
      · exact .inl hquiet
      · exact .inr ⟨t, player, transfer, rest, rfl, h⟩

/-! ### The transfers of a run -/

/-- Request ids go down, and what waits is the transfer that went out last. -/
structure Consistent (s : Inventory) : Prop where
  next : s.nextRequestId < 0
  used : ∀ entry ∈ s.transfers, s.nextRequestId < entry.1.requestId ∧ entry.1.requestId < 0
  decreasing : (s.transfers.map (·.1.requestId)).Pairwise (· > ·)
  pending : ∀ pending, s.pending = some pending → ∃ before transfer,
    s.transfers = before ++ [(transfer, true)] ∧ pending.id = transfer.requestId ∧
      pending.source = transfer.source ∧ pending.destination = transfer.destination ∧
        pending.item = transfer.item

variable {s t : Inventory}

theorem Consistent.quiet (hs : Consistent s) (h : Quiet s t) : Consistent t where
  next := h.nextRequestId.trans_lt hs.next
  used := by
    intro entry hmem
    rw [h.transfers] at hmem
    exact (hs.used entry hmem).imp_left h.nextRequestId.trans_lt
  decreasing := h.transfers ▸ hs.decreasing
  pending := by
    intro pending hpending
    rw [h.transfers]
    rcases h.pending with hsame | hnone
    · exact hs.pending pending (hsame ▸ hpending)
    · rw [hnone] at hpending
      cases hpending

theorem Consistent.sends {tick : Tick} {transfer : Transfer} {rest : List ℕ} (hs : Consistent s)
    (hguarded : Guarded tick s transfer) (h : Sends tick s t transfer rest) : Consistent t where
  next := by
    have hnext := h.nextRequestId
    have hneg := hs.next
    omega
  used := by
    intro entry hmem
    have hnext := h.nextRequestId
    rw [h.transfers, List.mem_append, List.mem_singleton] at hmem
    rcases hmem with hmem | rfl
    · have hused := hs.used entry hmem
      omega
    · have hneg := hs.next
      have hid := hguarded.requestId
      simp only
      omega
  decreasing := by
    rw [h.transfers, List.map_append, List.pairwise_append]
    refine ⟨hs.decreasing, List.pairwise_singleton _ _, ?_⟩
    intro id hid last hlast
    obtain ⟨entry, hmem, rfl⟩ := List.mem_map.mp hid
    rw [List.map_singleton, List.mem_singleton] at hlast
    rw [hlast, hguarded.requestId]
    exact (hs.used entry hmem).1
  pending := by
    intro pending hpending
    obtain ⟨hsent, rfl⟩ := h.pending pending hpending
    exact ⟨s.transfers, transfer, hsent ▸ h.transfers, rfl, rfl, rfl, rfl⟩

theorem Consistent.step (hs : Consistent s) (call : Call) : Consistent (step s call) := by
  rcases step_cases s call with hquiet | ⟨t, player, transfer, rest, -, -, hguarded, -, hsends⟩
  · exact hs.quiet hquiet
  · exact hs.sends hguarded hsends

theorem consistent_run (calls : List Call) : Consistent (run step {} calls) := by
  refine run_of_invariant (fun s call hs => hs.step call) ⟨by decide, ?_, ?_, ?_⟩ calls
  · simp [transfers]
  · simp [transfers]
  · intro pending hpending
    cases hpending

/-- An answer to a transfer before the last one is not heard. -/
theorem Consistent.late (hs : Consistent s) {before : List (Transfer × Bool)}
    {last : Transfer × Bool} (hlast : s.transfers = before ++ [last]) {entry : Transfer × Bool}
    (hentry : entry ∈ before) (now : ℚ) (response : Response)
    (hid : response.requestId = entry.1.requestId) : s.respond now response = s := by
  unfold respond
  split
  · rename_i pending hpending
    obtain ⟨init, transfer, htransfers, hpendingId, -⟩ := hs.pending pending hpending
    obtain ⟨rfl, hsame⟩ := List.append_inj' (hlast.symm.trans htransfers) rfl
    obtain rfl := List.singleton_inj.mp hsame
    have hdecreasing := hs.decreasing
    rw [hlast, List.map_append, List.pairwise_append] at hdecreasing
    have hlt : transfer.requestId < entry.1.requestId :=
      hdecreasing.2.2 _ (List.mem_map_of_mem hentry) _ (List.mem_singleton.mpr rfl)
    rw [if_pos (by omega)]
  · rfl

/-- Request ids never come back, what goes out is guarded by the state of its tick, and an answer
that comes late changes nothing. -/
theorem transfers_guarded (calls : List Call) :
    Consistent (run step {} calls) ∧
      (∀ call, (run step {} (calls ++ [call])).transfers = (run step {} calls).transfers ∨
        ∃ tick transfer, call = .tick tick ∧ Guarded tick (run step {} calls) transfer ∧
          (run step {} (calls ++ [call])).transfers =
            (run step {} calls).transfers ++ [(transfer, tick.sent)]) ∧
      ∀ before last, (run step {} calls).transfers = before ++ [last] →
        ∀ entry ∈ before, ∀ now response, response.requestId = entry.1.requestId →
          (run step {} calls).respond now response = run step {} calls := by
  refine ⟨consistent_run calls, fun call => ?_, fun before last hlast entry hentry now response =>
    (consistent_run calls).late hlast hentry now response⟩
  rw [run_append, run_cons, run_nil]
  rcases step_cases (run step {} calls) call with
    hquiet | ⟨t, player, transfer, rest, hcall, -, hguarded, -, hsends⟩
  · exact .inl hquiet.transfers
  · exact .inr ⟨t, transfer, hcall, hguarded, hsends.transfers⟩

/-! ### A lost packet -/

/-- The server sends the whole inventory of the player. -/
def Call.refills : Call → Bool
  | .onContent _ id (some input) => playerWindow id && 36 ≤ input.length
  | _ => false

/-- What is known of the player. -/
def baseline (s : Inventory) : Bool × Option Slots := (s.needsFullPlayerContent, s.player)

@[simp] theorem baseline_emit (output : Output) (s : Inventory) :
    baseline (s.emit output) = baseline s := rfl

@[simp] theorem baseline_release (s : Inventory) : baseline s.release = baseline s := rfl

@[simp] theorem baseline_cancelMultiplierScan (s : Inventory) :
    baseline s.cancelMultiplierScan = baseline s := by
  rw [cancelMultiplierScan]
  split <;> rfl

@[simp] theorem baseline_close (s : Inventory) : baseline s.close = baseline s := by
  rw [close]
  split <;> rfl

@[simp] theorem baseline_interrupt (now : ℚ) (closeForeign manualSell : Bool) (s : Inventory) :
    baseline (s.interrupt now closeForeign manualSell) = baseline s := by
  rw [interrupt, baseline_release, ← baseline_cancelMultiplierScan s]
  generalize s.cancelMultiplierScan = t
  have hguard : baseline (if closeForeign then t.guardManual now manualSell else t) =
      baseline t := by
    split <;> rfl
  rw [← hguard]
  generalize (if closeForeign then t.guardManual now manualSell else t) = u
  split
  · exact baseline_close u
  · rfl

@[simp] theorem baseline_confirmLegacyTransfer (authoritative : Bool) (s : Inventory) :
    baseline (s.confirmLegacyTransfer authoritative) = baseline s := by
  rw [confirmLegacyTransfer]
  split
  · split <;> rfl
  · rfl

@[simp] theorem baseline_logFailure (now : ℚ) (reason : String) (s : Inventory) :
    baseline (s.logFailure now reason) = baseline s := by
  rw [logFailure]
  split <;> rfl

theorem baseline_onOpen (now : ℚ) (id : WindowId) (type : String) (position : Option String)
    (s : Inventory) : baseline (s.onOpen now id type position) = baseline s := by
  rw [onOpen]
  simp only
  split
  · exact baseline_close _
  · rfl

theorem baseline_onBlockEntity (now : ℚ) (position title : Option String) (s : Inventory) :
    baseline (s.onBlockEntity now position title) = baseline s := by
  unfold onBlockEntity
  split
  · simp only
    split
    · split
      · split
        · exact baseline_close _
        · rfl
      · rfl
    · rfl
  · rfl

theorem baseline_onClose (id : WindowId) (s : Inventory) : baseline (s.onClose id) = baseline s := by
  rw [onClose]
  split
  · simp only
    split
    · exact baseline_cancelMultiplierScan s
    · rfl
  · rfl

theorem baseline_tickMultipliers (now : ℚ) (s : Inventory) :
    baseline (s.tickMultipliers now) = baseline s := by
  unfold tickMultipliers
  split
  · rfl
  · simp only
    split
    · exact baseline_close _
    · split
      · rw [baseline_emit]
        split
        · exact baseline_close _
        · rfl
      · rfl

/-- The player is not known, and the server has to send the whole inventory. -/
def Lost (s : Inventory) : Prop := baseline s = (true, none)

theorem lost_foldl {α : Type*} {f : Inventory → α → Inventory} (hs : Lost s)
    (hf : ∀ s a, Lost s → Lost (f s a)) (as : List α) : Lost (as.foldl f s) := by
  induction as generalizing s with
  | nil => exact hs
  | cons a as ih => exact ih (hf s a hs)

theorem lost_updateContainer (item : BedrockItem) (s : Inventory)
    (update : String × List ResponseSlot) (hs : Lost s) : Lost (updateContainer item s update) := by
  obtain ⟨hfull, hplayer⟩ := Prod.mk.inj hs
  rw [Lost, updateContainer]
  split
  · simp [baseline, hfull, hplayer]
  · split
    · exact hs
    · exact hs

theorem lost_respond (now : ℚ) (s : Inventory) (response : Response) (hs : Lost s) :
    Lost (s.respond now response) := by
  unfold respond
  split
  · rename_i pending hpending
    split
    · exact hs
    · split
      · exact (baseline_logFailure _ _ _).trans hs
      · exact lost_foldl hs (lost_updateContainer pending.item) response.containers
  · exact hs

theorem lost_onContent {id : WindowId} {input : Option (List BedrockItem)} (hs : Lost s)
    (authoritative : Bool) (hrefill : (Call.onContent authoritative id input).refills = false) :
    Lost (s.onContent authoritative id input) := by
  obtain ⟨hfull, hplayer⟩ := Prod.mk.inj hs
  unfold onContent
  split
  · exact hs
  · split
    · rename_i hwindow
      rw [Call.refills, hwindow, Bool.true_and, decide_eq_false_iff_not, not_le] at hrefill
      rw [if_pos ⟨hfull, hrefill⟩]
      exact hs
    · exact (baseline_confirmLegacyTransfer _ _).trans hs

theorem lost_onSlot (hs : Lost s) (authoritative : Bool) (id : WindowId) (slot : ℤ)
    (item : BedrockItem) : Lost (s.onSlot authoritative id slot item) := by
  obtain ⟨hfull, hplayer⟩ := Prod.mk.inj hs
  rw [onSlot]
  split
  · exact hs
  · split
    · exact hs
    · exact (baseline_confirmLegacyTransfer _ _).trans hs

theorem lost_onEquipment (hs : Lost s) (selectedSlot : ℤ) (item : BedrockItem) :
    Lost (s.onEquipment selectedSlot item) := by
  obtain ⟨hfull, hplayer⟩ := Prod.mk.inj hs
  rw [onEquipment]
  split
  · exact hs
  · simp [Lost, baseline, hfull, hplayer]

theorem lost_invalidateAfterDecodeFailure (now : ℚ) (s : Inventory) :
    Lost (s.invalidateAfterDecodeFailure now) := by
  exact baseline_interrupt now false false { s with needsFullPlayerContent := true, player := none }

theorem lost_reset (hs : Lost s) : Lost s.reset := by
  have hfull : s.cancelMultiplierScan.needsFullPlayerContent = true :=
    (Prod.mk.inj ((baseline_cancelMultiplierScan s).trans hs)).1
  rw [Lost, reset, baseline, hfull]

theorem tick_of_lost (hs : Lost s) (t : Tick) : s.tick t = s := by
  rw [tick, (Prod.mk.inj hs).1]
  rfl

/-- Nothing but the whole inventory makes the player known again. -/
theorem lost_step (hs : Lost s) {call : Call} (hcall : call.refills = false) :
    Lost (step s call) := by
  cases call with
  | onEquipment selectedSlot item => exact lost_onEquipment hs selectedSlot item
  | requestMultipliers now => exact hs
  | request now => exact hs
  | reset => exact lost_reset hs
  | invalidateAfterDecodeFailure now => exact lost_invalidateAfterDecodeFailure now s
  | clearMenuTitles => exact hs
  | interrupt now closeForeign manualSell => exact (baseline_interrupt _ _ _ s).trans hs
  | onOpen now id type position => exact (baseline_onOpen now id type position s).trans hs
  | onBlockEntity now position title => exact (baseline_onBlockEntity now position title s).trans hs
  | onClose id => exact (baseline_onClose id s).trans hs
  | onContent authoritative id input => exact lost_onContent hs authoritative hcall
  | onSlot authoritative id slot item => exact lost_onSlot hs authoritative id slot item
  | onResponse now responses => exact lost_foldl hs (lost_respond now) responses
  | tickMultipliers now => exact (baseline_tickMultipliers now s).trans hs
  | tick t =>
      rw [step, tick_of_lost hs]
      exact hs

theorem transfers_of_lost (hs : Lost s) (call : Call) : (step s call).transfers = s.transfers := by
  rcases step_cases s call with hquiet | ⟨t, player, transfer, rest, -, hplayer, -⟩
  · exact hquiet.transfers
  · rw [(Prod.mk.inj hs).2] at hplayer
    cases hplayer

/-- After a packet that was lost, until the server has sent the whole inventory of the player:
nothing is transferred, nothing is in the hand, and the mouse is blocked. -/
theorem lost_packet (s : Inventory) (now : ℚ) (calls : List Call)
    (hcalls : ∀ call ∈ calls, call.refills = false) :
    let u := run step s (.invalidateAfterDecodeFailure now :: calls)
    u.synchronized = false ∧ u.player = none ∧ u.transfers = s.transfers ∧ u.mouseHand = none ∧
      u.mouseBlocked = true := by
  have hrun : ∀ {t : Inventory}, Lost t → t.transfers = s.transfers →
      Lost (run step t calls) ∧ (run step t calls).transfers = s.transfers := by
    intro t ht htransfers
    refine (along_of_preserved (C := fun _ call => call.refills = false)
      (P := fun u : Inventory => Lost u ∧ u.transfers = s.transfers) ?_ ⟨ht, htransfers⟩
      (meets_of_forall_mem hcalls)).last
    intro u call hu hcall
    exact ⟨lost_step hu.1 hcall, (transfers_of_lost hu.1 call).trans hu.2⟩
  obtain ⟨hlost, htransfers⟩ := hrun (lost_invalidateAfterDecodeFailure now s)
    (quiet_invalidateAfterDecodeFailure now s).transfers
  obtain ⟨hfull, hplayer⟩ := Prod.mk.inj hlost
  refine ⟨?_, hplayer, htransfers, ?_, ?_⟩
  · exact congrArg not hfull
  · exact if_pos hfull
  · exact (congrArg (_ || ·) hfull).trans (Bool.or_true _)

theorem lost_packet_slot :
    Call.refills (.onSlot true (.number 0) 0 empty) = false ∧
      (run step {} [.invalidateAfterDecodeFailure 0, .onSlot true (.number 0) 0 empty]).player =
        none :=
  ⟨rfl, (lost_packet {} 0 [.onSlot true (.number 0) 0 empty] (by simp [Call.refills])).2.1⟩

/-! ### One sale -/

def sources (transfers : List (Transfer × Bool)) : List ℕ := transfers.map (·.1.source)

/-- With targets left over, a step has tried some of those before, in their order. -/
theorem step_targets {call : Call} {targets : List ℕ} (h : (step s call).targets = some targets) :
    ∃ sent, (step s call).transfers = s.transfers ++ sent ∧
      (s.targets = none ∧ (∃ player, s.player = some player ∧
        List.Sublist (sources sent ++ targets) (initialTargets player)) ∨
      ∃ before, s.targets = some before ∧ List.Sublist (sources sent ++ targets) before) := by
  rcases step_cases s call with
    hquiet | ⟨t, player, transfer, rest, -, hplayer, -, hsub, hsends⟩
  · refine ⟨[], by rw [hquiet.transfers, List.append_nil], .inr ⟨targets, ?_, List.Sublist.refl _⟩⟩
    rcases hquiet.targets with hsame | hnone
    · exact hsame.symm.trans h
    · cases hnone.symm.trans h
  · refine ⟨[(transfer, t.sent)], hsends.transfers, ?_⟩
    have hrest : rest = targets := by
      rcases hsends.targets with hsome | hnone
      · exact Option.some.inj (hsome.symm.trans h)
      · cases hnone.symm.trans h
    subst hrest
    cases htargets : s.targets with
    | none =>
        rw [htargets] at hsub
        exact .inl ⟨rfl, player, hplayer, hsub⟩
    | some before =>
        rw [htargets] at hsub
        exact .inr ⟨before, rfl, hsub⟩

/-- As long as targets are left over, what was tried and what is left are the first targets. -/
theorem run_targets {before : List ℕ} (hs : s.targets = some before) {calls : List Call}
    (h : Along step (fun s => s.targets.isSome) s calls) :
    ∃ sent targets, (run step s calls).transfers = s.transfers ++ sent ∧
      (run step s calls).targets = some targets ∧ List.Sublist (sources sent ++ targets) before := by
  induction calls generalizing s before with
  | nil => exact ⟨[], before, (List.append_nil _).symm, hs, List.Sublist.refl _⟩
  | cons call calls ih =>
      obtain ⟨targets, htargets⟩ := Option.isSome_iff_exists.mp h.2.head
      obtain ⟨sent, hsent, hnone | ⟨old, hold, hsub⟩⟩ := step_targets htargets
      · cases hs.symm.trans hnone.1
      · obtain rfl := Option.some.inj (hs.symm.trans hold)
        obtain ⟨more, left, hmore, hleft, hsub'⟩ := ih htargets h.2
        refine ⟨sent ++ more, left, ?_, hleft, ?_⟩
        · rw [run_cons, hmore, hsent, List.append_assoc]
        · rw [sources, List.map_append, List.append_assoc]
          exact (hsub'.append_left (sources sent)).trans hsub

theorem initialTargets_pairwise (player : Slots) : (initialTargets player).Pairwise (· < ·) :=
  List.pairwise_lt_range.filter _

end AfkClient.BedrockInventory

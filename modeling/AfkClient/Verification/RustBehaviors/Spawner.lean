import AfkClient.Library.Run
import AfkClient.Model.RustBehaviors

/-! # The stock of a spawner while it is cleaned -/

namespace AfkClient.RustBehaviors

open BehaviorState

/-! ### A spawner and its bot -/

def emptySlot : ItemStack where
  present := false
  customName := none
  itemName := none
  lore := none
  kind := "minecraft:air".toList
  count := 0

/-- A bot at the container of a spawner, with the player's slots at its end. -/
structure Spawner where
  state : BehaviorState
  slots : List ItemStack

inductive SpawnerEvent
  /-- A tick of the clean-out. The container may not be open yet, or not be shown. -/
  | advance (now : ℚ) (id : Option ℤ) (shown : Bool)
  /-- An item comes into a slot that is empty or holds items of its kind. -/
  | arrive (slot : ℕ) (stack : ItemStack)

/-- What the bot reads of the container. -/
def Spawner.client (id : Option ℤ) (shown : Bool) (slots : List ItemStack) : Client where
  inGameState := true
  inLoadedChunk := true
  inventory := id.map fun id => ⟨id, none, if shown then some ⟨slots, 0, 0, true⟩ else none⟩
  menu := none
  menuSession := 0
  spawnerInReach := none

def Action.thrownSlot : Action → Option ℕ
  | .throwAll slot => some slot
  | _ => none

/-- The slots that are thrown out in a step. -/
def thrown (s s' : BehaviorState) : List ℕ :=
  (s'.outbox.drop s.outbox.length).filterMap (·.2.thrownSlot)

def emptied (slots : List ItemStack) (thrown : List ℕ) : List ItemStack :=
  thrown.foldl (fun (slots : List ItemStack) (slot : ℕ) => slots.set slot emptySlot) slots

/-- The bot after a tick of the clean-out. -/
def Spawner.advanced (now : ℚ) (id : Option ℤ) (shown : Bool) (s : Spawner) : BehaviorState :=
  match s.state.activeTask with
  | some (.cleanSpawner p) => s.state.advanceCleanSpawner (client id shown s.slots) now p
  | _ => s.state

def Spawner.step (s : Spawner) : SpawnerEvent → Spawner
  | .advance now id shown =>
      let state := s.advanced now id shown
      ⟨state, emptied s.slots (thrown s.state state)⟩
  | .arrive slot stack =>
      match s.slots[slot]? with
      | none => s
      | some old =>
          if !old.present || (stack.present && old.kind = stack.kind) then
            { s with slots := s.slots.set slot stack }
          else s

def Spawner.containerLen (s : Spawner) : ℕ := s.slots.length - 36

/-- The container holds a stack of an item. -/
def Spawner.Holds (item : List Char) (s : Spawner) : Prop :=
  ∃ slot stack, slot < s.containerLen ∧ s.slots[slot]? = some stack ∧ stack.present = true ∧
    bareItemId stack.kind = item

def Spawner.dropTypes (s : Spawner) : List (List Char) :=
  s.state.config.spawnerDropItems.map bareItemId

/-- The slots with items that are to be dropped. -/
def Spawner.matching (s : Spawner) : List ℕ :=
  matchingSlots s.slots s.containerLen s.state.config.spawnerDropItems

/-- The item in a slot. -/
def Spawner.itemAt (s : Spawner) (slot : ℕ) : Option (List Char) :=
  s.slots[slot]?.map (bareItemId ·.kind)

/-- A tick that will throw out a batch: a run that is still in its limits is in its first stage,
its delay is over, it makes progress, and more than one stack matches. -/
def Spawner.ThrowsBatch (s : Spawner) : SpawnerEvent → Prop
  | .advance now (some id) true =>
      ∃ p, s.state.activeTask = some (.cleanSpawner p) ∧ id ≠ 0 ∧ now < p.runDeadline ∧
        p.steps < spawnerMaxSteps ∧
        (p.normalize s.state.config.spawnerDropItems).stage = .dropping ∧
        (p.normalize s.state.config.spawnerDropItems).nextAt ≤ now ∧
        spawnerKeepStacks < s.matching.length ∧
        ((p.normalize s.state.config.spawnerDropItems).counted s.matching.length).stalls <
          spawnerMaxStalls
  | _ => False

/-- When a batch is thrown out, all stacks to drop are of one item. -/
def Spawner.OneType (s : Spawner) (event : SpawnerEvent) : Prop :=
  s.ThrowsBatch event → ∀ i ∈ s.matching, ∀ j ∈ s.matching, s.itemAt i = s.itemAt j

/-- From any point of a run to any later one each item to drop keeps a stack, and only slots of
such items are ever thrown out. -/
structure Spawner.KeepsStock (s : Spawner) (events : List SpawnerEvent) : Prop where
  stock : ∀ earlier later, earlier ++ later <+: events → ∀ item ∈ s.dropTypes,
    (run step s earlier).Holds item → (run step s (earlier ++ later)).Holds item
  targets : ∀ earlier event, earlier ++ [event] <+: events →
    ∀ slot ∈ thrown (run step s earlier).state (run step s (earlier ++ [event])).state,
      slot < (run step s earlier).containerLen ∧
        ∃ item ∈ s.dropTypes, (run step s earlier).itemAt slot = some item

/-! ### One step -/

variable {b b' : BehaviorState} {s : Spawner}

theorem thrown_of_outbox {actions : List (ℚ × Action)} (h : b'.outbox = b.outbox ++ actions) :
    thrown b b' = actions.filterMap (·.2.thrownSlot) := by
  rw [thrown, h, List.drop_left]

theorem thrown_of_same (h : b'.outbox = b.outbox) : thrown b b' = [] := by
  rw [thrown_of_outbox (h.trans (List.append_nil _).symm), List.filterMap_nil]

theorem thrown_of_act {now : ℚ} {action : Action} (h : b'.outbox = b.outbox ++ [(now, action)])
    (haction : action.thrownSlot = none) : thrown b b' = [] := by
  rw [thrown_of_outbox h]
  simp [haction]

theorem thrown_throwAll {now : ℚ} {slots : List ℕ}
    (h : b'.outbox = (b.throwAll now slots).outbox) : thrown b b' = slots := by
  rw [thrown_of_outbox h, List.filterMap_map]
  exact List.filterMap_some

theorem finishStage_thrown (now : ℚ) (p : SpawnerProgress) : thrown b (b.finishStage now p) = [] := by
  rw [finishStage]
  split
  · exact thrown_of_same rfl
  · exact thrown_of_act rfl rfl

theorem sellStep_thrown (slots : List ItemStack) (containerLen : ℕ) (now : ℚ)
    (p : SpawnerProgress) : thrown b (b.sellStep slots containerLen now p) = [] := by
  rw [sellStep]
  split
  · split
    · exact thrown_of_act rfl rfl
    · exact thrown_of_same rfl
  · exact thrown_of_act rfl rfl

/-- The step of a run in its limits. -/
theorem cleanSlots_thrown (slots : List ItemStack) (containerLen : ℕ) (now : ℚ)
    (p : SpawnerProgress) :
    let q := p.normalize b.config.spawnerDropItems
    let matching := matchingSlots slots containerLen b.config.spawnerDropItems
    thrown b (b.cleanSlots slots containerLen now p) =
      if q.stage = .dropping ∧ q.nextAt ≤ now ∧ spawnerKeepStacks < matching.length ∧
          (q.counted matching.length).stalls < spawnerMaxStalls then
        matching.take (matching.length - spawnerKeepStacks)
      else [] := by
  intro q matching
  rw [cleanSlots]
  dsimp only
  change thrown b (if now < q.nextAt then _ else _) = _
  by_cases hdelay : now < q.nextAt
  · rw [if_pos hdelay, if_neg (by rintro ⟨-, hdue, -⟩; exact absurd hdelay (not_lt.mpr hdue))]
    exact thrown_of_same rfl
  · rw [if_neg hdelay]
    by_cases hstage : q.stage = .dropping
    · have htargets : matchingSlots slots containerLen
          (if q.stage = .dropping then b.config.spawnerDropItems
            else b.config.spawnerSellItems) = matching := by rw [if_pos hstage]
      rw [htargets]
      have hstage' : (q.counted matching.length).stage = .dropping := hstage
      by_cases hend : matching.length ≤ spawnerKeepStacks ∨
          (q.counted matching.length).stalls ≥ spawnerMaxStalls
      · rw [if_pos hend, finishStage_thrown, if_neg]
        rintro ⟨-, -, hkeep, hstalls⟩
        rcases hend with hend | hend
        · exact absurd hkeep (not_lt.mpr hend)
        · exact absurd hstalls (not_lt.mpr hend)
      · rw [not_or, not_le, ge_iff_le, not_le] at hend
        rw [if_neg (by rw [not_or, not_le, ge_iff_le, not_le]; exact hend), if_pos hstage',
          if_pos ⟨hstage, not_lt.mp hdelay, hend⟩]
        exact thrown_throwAll rfl
    · have hno : ¬ (q.stage = .dropping ∧ q.nextAt ≤ now ∧ spawnerKeepStacks < matching.length ∧
          (q.counted matching.length).stalls < spawnerMaxStalls) := fun h => hstage h.1
      have htargets : matchingSlots slots containerLen
          (if q.stage = .dropping then b.config.spawnerDropItems
            else b.config.spawnerSellItems) =
          matchingSlots slots containerLen b.config.spawnerSellItems := by rw [if_neg hstage]
      rw [if_neg hno, htargets]
      split
      · exact finishStage_thrown now _
      · rw [if_neg (show ¬ (q.counted _).stage = .dropping from hstage)]
        exact sellStep_thrown slots containerLen now _

theorem throwsBatch_iff {p : SpawnerProgress} {now : ℚ} {id : ℤ}
    (htask : s.state.activeTask = some (.cleanSpawner p)) :
    s.ThrowsBatch (.advance now (some id) true) ↔ id ≠ 0 ∧ now < p.runDeadline ∧
      p.steps < spawnerMaxSteps ∧
      (p.normalize s.state.config.spawnerDropItems).stage = .dropping ∧
      (p.normalize s.state.config.spawnerDropItems).nextAt ≤ now ∧
      spawnerKeepStacks < s.matching.length ∧
      ((p.normalize s.state.config.spawnerDropItems).counted s.matching.length).stalls <
        spawnerMaxStalls := by
  constructor
  · rintro ⟨q, hq, hthrows⟩
    rw [htask] at hq
    obtain rfl : p = q := by simpa using hq
    exact hthrows
  · exact fun hthrows => ⟨p, htask, hthrows⟩

/-- The tick at an open container. -/
theorem advanceCleanSpawner_thrown {p : SpawnerProgress} {now : ℚ} {id : ℤ}
    (htask : s.state.activeTask = some (.cleanSpawner p))
    (hset : RustBot.trim s.state.config.spawnerType ≠ []) :
    s.ThrowsBatch (.advance now (some id) true) ∧
        thrown s.state (s.state.advanceCleanSpawner (Spawner.client (some id) true s.slots) now p) =
          s.matching.take (s.matching.length - spawnerKeepStacks) ∨
      ¬ s.ThrowsBatch (.advance now (some id) true) ∧
        thrown s.state (s.state.advanceCleanSpawner (Spawner.client (some id) true s.slots) now p) =
          [] := by
  rw [throwsBatch_iff htask]
  dsimp only [advanceCleanSpawner, Spawner.client, Option.map_some]
  by_cases hid : id = 0
  · refine .inr ⟨fun h => h.1 hid, ?_⟩
    rw [if_pos hid]
    split <;> exact thrown_of_same rfl
  · rw [if_neg hid]
    by_cases hlimit : p.runDeadline ≤ now ∨ p.steps ≥ spawnerMaxSteps
    · refine .inr ⟨?_, ?_⟩
      · rintro ⟨-, htime, hsteps, -⟩
        rcases hlimit with hlimit | hlimit
        · exact absurd htime (not_lt.mpr hlimit)
        · exact absurd hsteps (not_lt.mpr hlimit)
      · rw [if_pos hlimit]
        exact thrown_of_act rfl rfl
    · rw [if_neg hlimit]
      rw [not_or, not_le, ge_iff_le, not_le] at hlimit
      by_cases hempty : s.slots.length - 36 = 0
      · refine .inr ⟨?_, ?_⟩
        · rintro ⟨-, -, -, -, -, hkeep, -⟩
          rw [Spawner.matching, Spawner.containerLen, hempty] at hkeep
          simp [matchingSlots] at hkeep
        · simp only [if_true, if_pos hempty]
          exact thrown_of_same rfl
      · simp only [if_true, if_neg hempty, if_neg hset]
        rw [cleanSlots_thrown]
        by_cases hbatch : (p.normalize s.state.config.spawnerDropItems).stage = .dropping ∧
            (p.normalize s.state.config.spawnerDropItems).nextAt ≤ now ∧
            spawnerKeepStacks < s.matching.length ∧
            ((p.normalize s.state.config.spawnerDropItems).counted s.matching.length).stalls <
              spawnerMaxStalls
        · exact .inl ⟨⟨hid, hlimit.1, hlimit.2, hbatch⟩, if_pos hbatch⟩
        · exact .inr ⟨fun h => hbatch h.2.2.2, if_neg hbatch⟩

/-- A tick throws out all matching stacks but the last, or nothing. -/
theorem advanced_thrown (hset : RustBot.trim s.state.config.spawnerType ≠ []) (now : ℚ)
    (id : Option ℤ) (shown : Bool) :
    s.ThrowsBatch (.advance now id shown) ∧ thrown s.state (s.advanced now id shown) =
        s.matching.take (s.matching.length - spawnerKeepStacks) ∨
      ¬ s.ThrowsBatch (.advance now id shown) ∧ thrown s.state (s.advanced now id shown) = [] := by
  rw [Spawner.advanced]
  cases htask : s.state.activeTask with
  | none =>
      refine .inr ⟨?_, thrown_of_same rfl⟩
      rcases id with - | id <;> cases shown <;> simp [Spawner.ThrowsBatch, htask]
  | some task =>
      cases task with
      | sellMultipliers progress =>
          refine .inr ⟨?_, thrown_of_same rfl⟩
          rcases id with - | id <;> cases shown <;> simp [Spawner.ThrowsBatch, htask]
      | cleanSpawner p =>
          cases id with
          | none => exact .inr ⟨nofun, thrown_of_same rfl⟩
          | some id =>
              cases shown with
              | false =>
                  refine .inr ⟨nofun, ?_⟩
                  dsimp only [advanceCleanSpawner, Spawner.client, Option.map_some]
                  split
                  · split <;> exact thrown_of_same rfl
                  · split
                    · exact thrown_of_act rfl rfl
                    · exact thrown_of_same rfl
              | true => exact advanceCleanSpawner_thrown htask hset

/-! ### What is kept -/

theorem cleanSlots_config (slots : List ItemStack) (containerLen : ℕ) (now : ℚ)
    (p : SpawnerProgress) : (b.cleanSlots slots containerLen now p).config = b.config := by
  rw [cleanSlots]
  extract_lets targets matching p'
  split
  · rfl
  · split
    · rw [finishStage]
      split <;> rfl
    · split
      · rfl
      · rw [sellStep]
        split
        · split <;> rfl
        · rfl

theorem advanceCleanSpawner_config (bot : Client) (now : ℚ) (p : SpawnerProgress)
    (hset : RustBot.trim b.config.spawnerType ≠ []) :
    (b.advanceCleanSpawner bot now p).config = b.config := by
  unfold advanceCleanSpawner
  split
  · rfl
  · split
    · split <;> rfl
    · split
      · rfl
      · split
        · rfl
        · dsimp only
          split
          · rfl
          · exact cleanSlots_config _ _ now p

theorem emptied_get (slots : List ItemStack) (gone : List ℕ) (i : ℕ) :
    (emptied slots gone)[i]? =
      if i ∈ gone then slots[i]?.map fun _ => emptySlot else slots[i]? := by
  induction gone generalizing slots with
  | nil => rfl
  | cons slot gone ih =>
      rw [emptied, List.foldl_cons]
      refine (ih _).trans ?_
      by_cases hslot : i = slot
      · subst hslot
        by_cases hlength : i < slots.length
        · simp [hlength]
        · simp [hlength]
      · simp [Ne.symm hslot, hslot]

theorem emptied_length (slots : List ItemStack) (gone : List ℕ) :
    (emptied slots gone).length = slots.length := by
  induction gone generalizing slots with
  | nil => rfl
  | cons slot gone ih =>
      rw [emptied, List.foldl_cons]
      exact (ih _).trans List.length_set

theorem step_config (hset : RustBot.trim s.state.config.spawnerType ≠ []) (event : SpawnerEvent) :
    (s.step event).state.config = s.state.config := by
  cases event with
  | advance now id shown =>
      change (s.advanced now id shown).config = s.state.config
      rw [Spawner.advanced]
      split
      · exact advanceCleanSpawner_config _ now _ hset
      · rfl
  | arrive slot stack =>
      rw [Spawner.step]
      repeat' split
      all_goals rfl

theorem step_containerLen (event : SpawnerEvent) :
    (s.step event).containerLen = s.containerLen := by
  cases event with
  | advance now id shown =>
      exact congrArg (· - 36) (emptied_length s.slots _)
  | arrive slot stack =>
      rw [Spawner.step]
      repeat' split
      · rfl
      · exact congrArg (· - 36) List.length_set
      · rfl

theorem mem_matching {slot : ℕ} :
    slot ∈ s.matching ↔ slot < s.containerLen ∧ ∃ stack, s.slots[slot]? = some stack ∧
      stack.present = true ∧ bareItemId stack.kind ∈ s.dropTypes := by
  rw [Spawner.matching, matchingSlots, List.mem_filter, List.mem_range, Option.any_eq_true]
  refine and_congr_right fun _ => exists_congr fun stack => and_congr_right fun _ => ?_
  rw [wanted, Bool.and_eq_true, decide_eq_true_eq]
  rfl

theorem matching_nodup : s.matching.Nodup :=
  List.nodup_range.filter _

/-- An item to drop is held by a matching slot. -/
theorem holds_iff {item : List Char} (hitem : item ∈ s.dropTypes) :
    s.Holds item ↔ ∃ slot ∈ s.matching, s.itemAt slot = some item := by
  constructor
  · rintro ⟨slot, stack, hslot, hstack, hpresent, rfl⟩
    exact ⟨slot, mem_matching.mpr ⟨hslot, stack, hstack, hpresent, hitem⟩,
      by rw [Spawner.itemAt, hstack, Option.map_some]⟩
  · rintro ⟨slot, hslot, hat⟩
    obtain ⟨hlen, stack, hstack, hpresent, -⟩ := mem_matching.mp hslot
    rw [Spawner.itemAt, hstack, Option.map_some, Option.some.injEq] at hat
    exact ⟨slot, stack, hlen, hstack, hpresent, hat⟩

theorem arrive_slots (slot : ℕ) (stack : ItemStack) :
    (s.step (.arrive slot stack)).slots = s.slots ∨
      ∃ old, s.slots[slot]? = some old ∧
        (old.present = true → stack.present = true ∧ old.kind = stack.kind) ∧
        (s.step (.arrive slot stack)).slots = s.slots.set slot stack := by
  rw [Spawner.step]
  cases hold : s.slots[slot]? with
  | none => exact .inl rfl
  | some old =>
      dsimp only
      split
      · rename_i hroom
        refine .inr ⟨old, rfl, fun hpresent => ?_, rfl⟩
        simpa [hpresent] using hroom
      · exact .inl rfl

theorem arrive_holds {slot : ℕ} {stack : ItemStack} {item : List Char} (h : s.Holds item) :
    (s.step (.arrive slot stack)).Holds item := by
  obtain ⟨i, old, hi, hold, hpresent, hitem⟩ := h
  have hi' : i < (s.step (.arrive slot stack)).containerLen := by rwa [step_containerLen]
  rcases arrive_slots (s := s) slot stack with hsame | ⟨there, hthere, hroom, hset⟩
  · exact ⟨i, old, hi', hsame ▸ hold, hpresent, hitem⟩
  · by_cases hslot : slot = i
    · subst hslot
      obtain rfl : there = old := Option.some.inj (hthere.symm.trans hold)
      have hlength : slot < s.slots.length := (List.getElem?_eq_some_iff.mp hthere).1
      obtain ⟨hstack, hkind⟩ := hroom hpresent
      exact ⟨slot, stack, hi', by rw [hset]; simp [hlength], hstack, hkind ▸ hitem⟩
    · exact ⟨i, old, hi', by rw [hset]; simp [hslot, hold], hpresent, hitem⟩

/-- A batch leaves the last matching stack. -/
theorem batch_split (hkeep : spawnerKeepStacks < s.matching.length) :
    ∃ last, s.matching =
        s.matching.take (s.matching.length - spawnerKeepStacks) ++ [last] ∧
      last ∉ s.matching.take (s.matching.length - spawnerKeepStacks) := by
  have hne : s.matching ≠ [] := by
    rintro hempty
    simp [hempty] at hkeep
  have hsplit := List.dropLast_append_getLast hne
  have hnodup := matching_nodup (s := s)
  rw [List.dropLast_eq_take] at hsplit
  refine ⟨s.matching.getLast hne, hsplit.symm, fun hmem => ?_⟩
  rw [← hsplit] at hnodup
  exact (List.nodup_append.mp hnodup).2.2 _ hmem _ (List.mem_singleton_self _) rfl

/-- What is held after a batch is what its last slot holds. -/
theorem batch_holds {event : SpawnerEvent} {gone : List ℕ} {item : List Char}
    (hslots : (s.step event).slots = emptied s.slots gone) (hitem : item ∈ s.dropTypes) :
    (s.step event).Holds item ↔ ∃ slot ∈ s.matching, slot ∉ gone ∧ s.itemAt slot = some item := by
  constructor
  · rintro ⟨slot, stack, hslot, hstack, hpresent, rfl⟩
    rw [step_containerLen] at hslot
    rw [hslots, emptied_get] at hstack
    split at hstack
    · obtain ⟨old, -, rfl⟩ := Option.map_eq_some_iff.mp hstack
      simp [emptySlot] at hpresent
    · rename_i hgone
      exact ⟨slot, mem_matching.mpr ⟨hslot, stack, hstack, hpresent, hitem⟩, hgone,
        by rw [Spawner.itemAt, hstack, Option.map_some]⟩
  · rintro ⟨slot, hslot, hgone, hat⟩
    obtain ⟨hlen, stack, hstack, hpresent, -⟩ := mem_matching.mp hslot
    rw [Spawner.itemAt, hstack, Option.map_some, Option.some.injEq] at hat
    exact ⟨slot, stack, by rwa [step_containerLen],
      by rw [hslots, emptied_get, if_neg hgone, hstack], hpresent, hat⟩

theorem Spawner.ThrowsBatch.several {event : SpawnerEvent} (h : s.ThrowsBatch event) :
    spawnerKeepStacks < s.matching.length := by
  unfold Spawner.ThrowsBatch at h
  split at h
  · obtain ⟨p, -, -, -, -, -, -, hkeep, -⟩ := h
    exact hkeep
  · cases h

/-- A step keeps a stack of each item exactly when no batch of several items is thrown out. -/
theorem step_keeps_iff (hset : RustBot.trim s.state.config.spawnerType ≠ [])
    (event : SpawnerEvent) :
    (∀ item ∈ s.dropTypes, s.Holds item → (s.step event).Holds item) ↔ s.OneType event := by
  cases event with
  | arrive slot stack => exact iff_of_true (fun _ _ => arrive_holds) nofun
  | advance now id shown =>
      have hslots : (s.step (.advance now id shown)).slots =
        emptied s.slots (thrown s.state (s.advanced now id shown)) := rfl
      rcases advanced_thrown hset now id shown with ⟨hbatch, hthrown⟩ | ⟨hnone, hthrown⟩
      · rw [hthrown] at hslots
        obtain ⟨last, hsplit, hlast⟩ := batch_split hbatch.several
        have hkept (slot : ℕ) (hslot : slot ∈ s.matching)
            (hgone : slot ∉ s.matching.take (s.matching.length - spawnerKeepStacks)) :
            slot = last := by
          rw [hsplit, List.mem_append, List.mem_singleton] at hslot
          exact hslot.resolve_left hgone
        have hmem : last ∈ s.matching := by
          rw [hsplit]
          exact List.mem_append_right _ (List.mem_singleton_self _)
        constructor
        · intro hkeeps _ i hi j hj
          have hsame (slot : ℕ) (hslot : slot ∈ s.matching) : s.itemAt slot = s.itemAt last := by
            obtain ⟨-, stack, hstack, -, hitem⟩ := mem_matching.mp hslot
            have hat : s.itemAt slot = some (bareItemId stack.kind) := by
              rw [Spawner.itemAt, hstack, Option.map_some]
            have hheld := hkeeps _ hitem ((holds_iff hitem).mpr ⟨slot, hslot, hat⟩)
            obtain ⟨k, hk, hgone, hkat⟩ := (batch_holds hslots hitem).mp hheld
            rw [hat, ← hkat, hkept k hk hgone]
          rw [hsame i hi, hsame j hj]
        · intro hone item hitem hheld
          obtain ⟨slot, hslot, hat⟩ := (holds_iff hitem).mp hheld
          exact (batch_holds hslots hitem).mpr
            ⟨last, hmem, hlast, (hone hbatch last hmem slot hslot).trans hat⟩
      · rw [hthrown] at hslots
        refine iff_of_true (fun item hitem hheld => ?_) fun hbatch => absurd hbatch hnone
        obtain ⟨slot, hslot, hat⟩ := (holds_iff hitem).mp hheld
        exact (batch_holds hslots hitem).mpr ⟨slot, hslot, List.not_mem_nil, hat⟩

theorem step_targets (hset : RustBot.trim s.state.config.spawnerType ≠ []) (event : SpawnerEvent)
    {slot : ℕ} (hslot : slot ∈ thrown s.state (s.step event).state) :
    slot < s.containerLen ∧ ∃ item ∈ s.dropTypes, s.itemAt slot = some item := by
  have hmem : slot ∈ s.matching := by
    cases event with
    | advance now id shown =>
        change slot ∈ thrown s.state (s.advanced now id shown) at hslot
        rcases advanced_thrown hset now id shown with ⟨-, hthrown⟩ | ⟨-, hthrown⟩
        · rw [hthrown] at hslot
          exact List.mem_of_mem_take hslot
        · simp [hthrown] at hslot
    | arrive room stack =>
        have hsame : (s.step (.arrive room stack)).state = s.state := by
          rw [Spawner.step]
          repeat' split
          all_goals rfl
        rw [hsame, thrown_of_same rfl] at hslot
        cases hslot
  obtain ⟨hlen, stack, hstack, -, hitem⟩ := mem_matching.mp hmem
  exact ⟨hlen, _, hitem, by rw [Spawner.itemAt, hstack, Option.map_some]⟩

/-! ### Runs -/

theorem run_config (hset : RustBot.trim s.state.config.spawnerType ≠ [])
    (events : List SpawnerEvent) :
    (run Spawner.step s events).state.config = s.state.config :=
  run_of_invariant (P := fun (t : Spawner) => t.state.config = s.state.config)
    (fun _ event ht => (step_config (ht ▸ hset) event).trans ht) rfl events

/-- Cleaning keeps a stack of every item to drop exactly when every batch is of one item. -/
theorem clean_spawner_keeps_stock_iff (s : Spawner) (events : List SpawnerEvent)
    (hset : RustBot.trim s.state.config.spawnerType ≠ []) :
    s.KeepsStock events ↔ Meets Spawner.step Spawner.OneType s events := by
  have hstock : (∀ earlier later, earlier ++ later <+: events → ∀ item ∈ s.dropTypes,
        (run Spawner.step s earlier).Holds item →
          (run Spawner.step s (earlier ++ later)).Holds item) ↔
      Meets Spawner.step
        (fun t event => ∀ item : {item // item ∈ s.dropTypes},
          t.Holds item → (t.step event).Holds item) s events := by
    rw [meets_keeps_iff]
    exact forall₃_congr fun _ _ _ =>
      ⟨fun h item => h item.1 item.2, fun h item hitem => h ⟨item, hitem⟩⟩
  have hsteps (t : Spawner) (event : SpawnerEvent) (ht : t.state.config = s.state.config) :
      (∀ item : {item // item ∈ s.dropTypes}, t.Holds item → (t.step event).Holds item) ↔
        t.OneType event := by
    rw [← step_keeps_iff (ht ▸ hset) event, Subtype.forall, Spawner.dropTypes, ← ht]
    rfl
  have hconfig (t : Spawner) (event : SpawnerEvent) (ht : t.state.config = s.state.config) :
      (t.step event).state.config = s.state.config := (step_config (ht ▸ hset) event).trans ht
  constructor
  · intro h
    exact meets_of_preserved (P := fun (t : Spawner) => t.state.config = s.state.config)
      (fun t event ht hkeeps => ⟨hconfig t event ht, (hsteps t event ht).mp hkeeps⟩) rfl
      (hstock.mp h.stock)
  · intro h
    refine ⟨hstock.mpr (meets_of_preserved (P := fun (t : Spawner) => t.state.config = s.state.config)
      (fun t event ht hone => ⟨hconfig t event ht, (hsteps t event ht).mpr hone⟩) rfl h), ?_⟩
    intro earlier event _ slot hslot
    have hsame := run_config hset earlier
    rw [run_append] at hslot
    have htargets := step_targets (hsame ▸ hset) event hslot
    rwa [Spawner.dropTypes, hsame] at htargets

/-! ### Examples -/

def bone : List Char := ['b', 'o', 'n', 'e']

def arrow : List Char := ['a', 'r', 'r', 'o', 'w']

def stackOf (kind : List Char) : ItemStack := { emptySlot with present := true, kind := kind }

/-- A bot that has just clicked a spawner of skeletons, with some stacks in its container. -/
def skeletons (kinds : List (List Char)) : Spawner where
  state :=
    { BehaviorState.new 0 ⟨false, 1, [], ['s', 'k', 'e', 'l', 'e', 't', 'o', 'n'], [bone, arrow], []⟩
        0 0 with activeTask := some (.cleanSpawner (.begin 0)) }
  slots := kinds.map stackOf ++ List.replicate 36 emptySlot

/-- Two stacks of one item. -/
theorem clean_spawner_keeps_bones : (skeletons [bone, bone]).KeepsStock [.advance 1 (some 7) true] :=
  (clean_spawner_keeps_stock_iff (skeletons [bone, bone]) [.advance 1 (some 7) true]
    (by decide)).mpr ⟨fun _ => by decide, trivial⟩

/-- The only stack of bones is thrown out, as a stack of arrows is left. -/
theorem clean_spawner_loses_bones :
    ¬ ∀ (s : Spawner) (events : List SpawnerEvent),
      RustBot.trim s.state.config.spawnerType ≠ [] → s.KeepsStock events := by
  intro h
  have hkeeps : ((skeletons [bone, arrow]).step (.advance 1 (some 7) true)).Holds bone :=
    (h (skeletons [bone, arrow]) [.advance 1 (some 7) true] (by decide)).stock [] _
      List.prefix_rfl bone (by decide) ⟨0, stackOf bone, by decide, rfl, rfl, rfl⟩
  obtain ⟨slot, stack, hslot, hstack, hpresent, hbone⟩ := hkeeps
  have hnone : ∀ slot < 2,
      (((skeletons [bone, arrow]).step (.advance 1 (some 7) true)).slots[slot]?).all
        (fun stack => !stack.present || bareItemId stack.kind != bone) = true := by
    decide +kernel
  rw [step_containerLen] at hslot
  have hgone := hnone slot hslot
  rw [hstack, Option.all_some, hpresent, hbone] at hgone
  simp at hgone

end AfkClient.RustBehaviors

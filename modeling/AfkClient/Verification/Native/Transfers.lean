import AfkClient.Library.Run
import AfkClient.Model.NativeAutoSell
import Mathlib.Data.Finset.Range
import Mathlib.Data.List.Nodup

/-! The window of unconfirmed transfers: its bound, and what the one position that the stall
test looks at tells about the transfers that are really unconfirmed. -/

namespace AfkClient.Native.SellTransfers

variable {x x' x'' : SellTransfers} {cursor cursor' slot : ℕ} {now : ℤ}

/-! ### The window -/

/-- Only transfers that were sent are confirmed, and few are not. -/
structure Counted (x : SellTransfers) : Prop where
  acknowledged : x.acknowledged ⊆ Finset.range x.sent.length
  payouts : x.payouts ≤ x.sent.length
  inFlight : x.inFlight ≤ maxInFlight

theorem counted_empty : Counted {} := by
  constructor <;> simp [SellTransfers.inFlight, SellTransfers.confirmed]

theorem Counted.confirmed_le (h : x.Counted) : x.confirmed ≤ x.sent.length := by
  have hcard : x.acknowledged.card ≤ x.sent.length := by
    simpa using Finset.card_le_card h.acknowledged
  exact Nat.max_le.mpr ⟨h.payouts, hcard⟩

theorem send_spec (h : x.send slot now = .ok x') :
    x' = { x with sent := x.sent ++ [⟨slot, now⟩] } ∧ x.canSend ∧
      slot ∉ x.sent.map (·.slot) := by
  unfold SellTransfers.send at h
  split at h
  · cases h
  · rename_i hcan
    split at h
    · cases h
    · rename_i hvisited
      exact ⟨(Except.ok.inj h).symm, by simpa using hcan, by simpa using hvisited⟩

theorem Counted.inFlight_send (h : x.Counted) (hsend : x.send slot now = .ok x') :
    x'.inFlight = x.inFlight + 1 := by
  obtain ⟨rfl, -, -⟩ := send_spec hsend
  have hle := h.confirmed_le
  change (x.sent ++ [_]).length - x.confirmed = x.sent.length - x.confirmed + 1
  rw [List.length_append, List.length_singleton]
  omega

theorem Counted.send (h : x.Counted) (hsend : x.send slot now = .ok x') : x'.Counted := by
  have hcount := h.inFlight_send hsend
  obtain ⟨rfl, hcan, -⟩ := send_spec hsend
  refine ⟨h.acknowledged.trans (by simp), ?_, ?_⟩
  · have := h.payouts
    simp only [List.length_append, List.length_singleton]
    omega
  · have hlt : x.inFlight < maxInFlight := by simpa [canSend] using hcan
    omega

/-- More credits never let the window overflow. -/
theorem Counted.credit (h : x.Counted) (hsent : x'.sent = x.sent)
    (hacknowledged : x'.acknowledged ⊆ Finset.range x.sent.length)
    (hpayouts : x'.payouts ≤ x.sent.length) (hmore : x.confirmed ≤ x'.confirmed) : x'.Counted := by
  refine ⟨hsent ▸ hacknowledged, hsent ▸ hpayouts, ?_⟩
  have := h.inFlight
  unfold SellTransfers.inFlight at this ⊢
  rw [hsent]
  omega

/-- A confirmation of transfers that were sent. -/
def Credits (x x' : SellTransfers) : Prop :=
  x.confirmed ≤ x'.confirmed ∧ x'.sent = x.sent ∧ (x.Counted → x'.Counted)

theorem Credits.refl (x : SellTransfers) : x.Credits x := ⟨Nat.le_refl _, rfl, id⟩

theorem Credits.trans (h : x.Credits x') (h' : x'.Credits x'') : x.Credits x'' :=
  ⟨h.1.trans h'.1, h'.2.1.trans h.2.1, fun hx => h'.2.2 (h.2.2 hx)⟩

/-- A slot packet marks the position of its slot, if the slot was sent. -/
theorem acknowledgeSlot_cases (x : SellTransfers) (slot : ℕ) :
    (slot ∉ x.sent.map (·.slot) ∧ x.acknowledgeSlot slot = x) ∨
      ∃ i transfer, x.sent[i]? = some transfer ∧ transfer.slot = slot ∧
        x.acknowledgeSlot slot = { x with acknowledged := insert i x.acknowledged } := by
  unfold acknowledgeSlot
  split
  · rename_i i hi
    obtain ⟨hlt, hslot, -⟩ := List.findIdx?_eq_some_iff_getElem.mp hi
    exact .inr ⟨i, x.sent[i], List.getElem?_eq_getElem hlt, by simpa using hslot, rfl⟩
  · rename_i hnone
    exact .inl ⟨by simpa using hnone, rfl⟩

theorem acknowledgeSlot_credits (x : SellTransfers) (slot : ℕ) : x.Credits (x.acknowledgeSlot slot) := by
  rcases x.acknowledgeSlot_cases slot with ⟨-, heq⟩ | ⟨i, transfer, hi, -, heq⟩
  · rw [heq]
    exact Credits.refl x
  · have hmore : x.confirmed ≤ (x.acknowledgeSlot slot).confirmed := by
      have := Finset.card_le_card (Finset.subset_insert i x.acknowledged)
      rw [heq]
      simp only [confirmed]
      omega
    rw [heq] at hmore ⊢
    refine ⟨hmore, rfl, fun h => h.credit rfl ?_ h.payouts hmore⟩
    rw [Finset.insert_subset_iff, Finset.mem_range]
    exact ⟨(List.getElem?_eq_some_iff.mp hi).1, h.acknowledged⟩

theorem acknowledgeSlots_credits (x : SellTransfers) (slots : List ℕ) :
    x.Credits (slots.foldl (·.acknowledgeSlot ·) x) := by
  induction slots generalizing x with
  | nil => exact Credits.refl x
  | cons slot slots ih => exact (x.acknowledgeSlot_credits slot).trans (ih _)

/-- A payout is a credit unless the transfers it counts were forgotten. -/
theorem Counted.acknowledgePayout (h : x.Counted) : x.Credits x.acknowledgePayout := by
  have hmore : x.confirmed ≤ x.acknowledgePayout.confirmed := by
    have := h.payouts
    simp only [SellTransfers.acknowledgePayout, confirmed]
    omega
  exact ⟨hmore, rfl, fun h => h.credit rfl h.acknowledged (Nat.min_le_left _ _) hmore⟩

/-- The window of a sale whose slots below `cursor` were visited. -/
structure Window (x : SellTransfers) (cursor : ℕ) : Prop extends x.Counted where
  slots : ∀ e ∈ x.sent, e.slot < cursor

theorem window_empty : Window {} cursor := ⟨counted_empty, by simp⟩

theorem Window.mono (h : x.Window cursor) (hc : cursor ≤ cursor') : x.Window cursor' :=
  { h with slots := fun e he => Nat.lt_of_lt_of_le (h.slots e he) hc }

theorem Window.send (h : x.Window cursor) (hsend : x.canSend) :
    x.send cursor now = .ok { x with sent := x.sent ++ [⟨cursor, now⟩] } := by
  have hvisited : ∀ e ∈ x.sent, e.slot ≠ cursor := fun e he => Nat.ne_of_lt (h.slots e he)
  simpa [SellTransfers.send, hsend] using hvisited

theorem Window.sent (h : x.Window cursor) (hsend : x.send cursor now = .ok x') :
    x'.Window (cursor + 1) := by
  refine ⟨h.toCounted.send hsend, ?_⟩
  obtain ⟨rfl, -, -⟩ := send_spec hsend
  intro e he
  rcases List.mem_append.mp he with he | he
  · exact Nat.lt_succ_of_lt (h.slots e he)
  · simp [List.mem_singleton.mp he]

theorem Window.credit (h : x.Window cursor) (hcredits : x.Credits x') : x'.Window cursor :=
  ⟨hcredits.2.2 h.toCounted, hcredits.2.1 ▸ h.slots⟩

/-! ### Calls -/

inductive Call where
  | sent (slot : ℕ) (now : ℤ)
  | acknowledgeSlot (slot : ℕ)
  | acknowledgePayout
  | reset
  deriving DecidableEq, Repr

/-- A call that throws changes nothing. -/
def call (x : SellTransfers) : Call → SellTransfers
  | .sent slot now => (x.send slot now).toOption.getD x
  | .acknowledgeSlot slot => x.acknowledgeSlot slot
  | .acknowledgePayout => x.acknowledgePayout
  | .reset => {}

/-- What was sent and reported since the last reset. -/
structure Ledger where
  sent : List Transfer := []
  /-- The slots whose transfer a slot packet reported. -/
  slots : Finset ℕ := ∅
  /-- The payouts, without those beyond the transfers of their time. -/
  payouts : ℕ := 0
  deriving DecidableEq

def Ledger.call (l : Ledger) : Call → Ledger
  | .sent slot now => { l with sent := l.sent ++ [⟨slot, now⟩] }
  | .acknowledgeSlot slot =>
      if slot ∈ l.sent.map (·.slot) then { l with slots := insert slot l.slots } else l
  | .acknowledgePayout =>
      if l.payouts < l.sent.length then { l with payouts := l.payouts + 1 } else l
  | .reset => {}

/-- The transfers beside their ledger. -/
def traced (s : SellTransfers × Ledger) (c : Call) : SellTransfers × Ledger :=
  (s.1.call c, s.2.call c)

/-- The call does not throw. -/
def Accepted (s : SellTransfers × Ledger) : Call → Prop
  | .sent slot now => (s.1.send slot now).isOk
  | _ => True

def sendTimes (calls : List Call) : List ℤ :=
  calls.filterMap fun
    | .sent _ now => some now
    | _ => none

/-! ### Positions and slots -/

variable {l : Ledger} {calls : List Call} {c : Call}

/-- The positions that are acknowledged are those of the reported slots. -/
structure Tracks (x : SellTransfers) (l : Ledger) : Prop extends x.Counted where
  sent : x.sent = l.sent
  slots : (x.sent.map (·.slot)).Nodup
  payouts_eq : x.payouts = l.payouts
  reported : ∀ i transfer, x.sent[i]? = some transfer →
    (i ∈ x.acknowledged ↔ transfer.slot ∈ l.slots)
  known : l.slots ⊆ (x.sent.map (·.slot)).toFinset
  card : x.acknowledged.card = l.slots.card

theorem tracks_empty : Tracks {} {} :=
  ⟨counted_empty, rfl, by simp, rfl, by simp, by simp, rfl⟩

theorem Tracks.confirmed_eq (h : x.Tracks l) : x.confirmed = max l.payouts l.slots.card := by
  rw [confirmed, h.payouts_eq, h.card]

theorem Tracks.send (h : x.Tracks l) (hsend : x.send slot now = .ok x') :
    x'.Tracks { l with sent := l.sent ++ [⟨slot, now⟩] } := by
  have hcounted := h.toCounted.send hsend
  obtain ⟨rfl, -, hnew⟩ := send_spec hsend
  refine ⟨hcounted, ?_, ?_, h.payouts_eq, ?_, ?_, h.card⟩
  · rw [h.sent]
  · rw [List.map_append, List.nodup_append]
    refine ⟨h.slots, by simp, fun s hs s' hs' heq => ?_⟩
    obtain rfl : s' = slot := by simpa using hs'
    exact hnew (heq ▸ hs)
  · intro i transfer hi
    rcases Nat.lt_or_ge i x.sent.length with hlt | hge
    · rw [List.getElem?_append_left hlt] at hi
      exact h.reported i transfer hi
    · -- the new position is not acknowledged, and its slot was never reported
      have hposition : i ∉ x.acknowledged := fun hmem =>
        Nat.not_lt_of_ge hge (Finset.mem_range.mp (h.acknowledged hmem))
      rw [List.getElem?_append_right hge] at hi
      obtain rfl : transfer = ⟨slot, now⟩ := by simpa using List.mem_of_getElem? hi
      exact iff_of_false hposition fun hmem => hnew (List.mem_toFinset.mp (h.known hmem))
  · refine h.known.trans fun s hs => ?_
    rw [List.map_append, List.toFinset_append]
    exact Finset.mem_union_left _ hs

/-- A slot is reported for the first time exactly when its position is marked for the first time. -/
theorem Tracks.acknowledgeSlot (h : x.Tracks l) (slot : ℕ) :
    (x.acknowledgeSlot slot).Tracks (l.call (.acknowledgeSlot slot)) := by
  have hcounted := (x.acknowledgeSlot_credits slot).2.2 h.toCounted
  rcases x.acknowledgeSlot_cases slot with ⟨hnot, heq⟩ | ⟨i, transfer, hi, rfl, heq⟩
  · rw [heq, Ledger.call, if_neg (h.sent ▸ hnot)]
    exact h
  · have hmem : transfer.slot ∈ x.sent.map (·.slot) :=
      List.mem_map_of_mem (List.mem_of_getElem? hi)
    rw [heq] at hcounted ⊢
    rw [Ledger.call, if_pos (h.sent ▸ hmem)]
    refine ⟨hcounted, h.sent, h.slots, h.payouts_eq, ?_, ?_, ?_⟩
    · intro j transfer' hj
      have hslots : transfer'.slot = transfer.slot ↔ j = i := by
        constructor
        · intro hsame
          have hlt : j < (x.sent.map (·.slot)).length := by
            simpa using (List.getElem?_eq_some_iff.mp hj).1
          exact (List.getElem?_inj hlt h.slots).mp (by simp [hi, hj, hsame])
        · rintro rfl
          rw [Option.some.inj (hj.symm.trans hi)]
      rw [Finset.mem_insert, Finset.mem_insert, hslots, h.reported j transfer' hj]
    · exact Finset.insert_subset (List.mem_toFinset.mpr hmem) h.known
    · have hmark := h.reported i transfer hi
      by_cases hold : i ∈ x.acknowledged
      · rw [Finset.insert_eq_of_mem hold, Finset.insert_eq_of_mem (hmark.mp hold), h.card]
      · rw [Finset.card_insert_of_notMem hold, Finset.card_insert_of_notMem (mt hmark.mpr hold),
          h.card]

theorem Tracks.acknowledgePayout (h : x.Tracks l) :
    x.acknowledgePayout.Tracks (l.call .acknowledgePayout) := by
  have hcounted := h.toCounted.acknowledgePayout.2.2 h.toCounted
  have hle := h.payouts
  have hpayouts := h.payouts_eq
  rw [Ledger.call]
  split
  · rename_i hless
    refine ⟨hcounted, h.sent, h.slots, ?_, h.reported, h.known, h.card⟩
    rw [← h.sent] at hless
    simp only [SellTransfers.acknowledgePayout]
    omega
  · rename_i hfull
    refine ⟨hcounted, h.sent, h.slots, ?_, h.reported, h.known, h.card⟩
    rw [← h.sent] at hfull
    simp only [SellTransfers.acknowledgePayout]
    omega

theorem Tracks.step {s : SellTransfers × Ledger} (h : s.1.Tracks s.2) (hc : Accepted s c) :
    (traced s c).1.Tracks (traced s c).2 := by
  cases c with
  | sent slot now =>
      cases hsend : s.1.send slot now with
      | error e => simp [Accepted, hsend, Except.isOk, Except.toBool] at hc
      | ok x' =>
          have hx : s.1.call (.sent slot now) = x' := by simp [call, hsend, Except.toOption]
          rw [traced, hx]
          exact h.send hsend
  | acknowledgeSlot slot => exact h.acknowledgeSlot slot
  | acknowledgePayout => exact h.acknowledgePayout
  | reset => exact tracks_empty

/-! ### The stall test -/

/-- The transfers as their ledger describes them. -/
structure Windowed (x : SellTransfers) (l : Ledger) : Prop where
  sent : x.sent = l.sent
  slots : (x.sent.map (·.slot)).Nodup
  inFlight : x.inFlight ≤ maxInFlight
  total : x.confirmed + x.inFlight = x.sent.length
  confirmed : x.confirmed = max l.payouts l.slots.card
  /-- Whichever transfers were confirmed, an old one was not. -/
  stalled : ∀ now, x.stalled now → ∀ confirmed : Finset ℕ, confirmed.card ≤ x.confirmed →
    ∃ i transfer, x.sent[i]? = some transfer ∧ i ∉ confirmed ∧ transfer.time ≤ now - 5000
  unstalled : ∀ now newest, x.confirmed < x.sent.length → x.sent.getLast? = some newest →
    newest.time ≤ now - 5000 → x.stalled now

theorem stalled_iff : x.stalled now ↔
    ∃ transfer, x.sent[x.confirmed]? = some transfer ∧ transfer.time ≤ now - 5000 := by
  unfold SellTransfers.stalled
  cases x.sent[x.confirmed]? with
  | none => simp
  | some transfer =>
      simp only [ge_iff_le, decide_eq_true_eq, Option.some.injEq, exists_eq_left']
      omega

/-- One of the positions up to the number of confirmations is unconfirmed. -/
theorem exists_unconfirmed {confirmed : Finset ℕ} {n : ℕ} (h : confirmed.card ≤ n) :
    ∃ i ≤ n, i ∉ confirmed := by
  have hcard : confirmed.card < (Finset.range (n + 1)).card := by
    rw [Finset.card_range]
    omega
  obtain ⟨i, hi, hnot⟩ := Finset.exists_mem_notMem_of_card_lt_card hcard
  exact ⟨i, Nat.le_of_lt_succ (Finset.mem_range.mp hi), hnot⟩

theorem Tracks.windowed (h : x.Tracks l) (htimes : (x.sent.map (·.time)).Pairwise (· ≤ ·)) :
    x.Windowed l := by
  have hle := h.toCounted.confirmed_le
  have hordered : ∀ i j (hi : i < x.sent.length) (hj : j < x.sent.length), i ≤ j →
      x.sent[i].time ≤ x.sent[j].time := by
    intro i j hi hj hij
    rcases Nat.lt_or_eq_of_le hij with hlt | rfl
    · have := List.pairwise_iff_getElem.mp htimes i j (by simpa) (by simpa) hlt
      rwa [List.getElem_map, List.getElem_map] at this
    · exact Int.le_refl _
  refine ⟨h.sent, h.slots, h.inFlight, ?_, h.confirmed_eq, ?_, ?_⟩
  · rw [SellTransfers.inFlight]
    omega
  · intro now hstalled confirmed hcard
    obtain ⟨transfer, hget, hold⟩ := stalled_iff.mp hstalled
    obtain ⟨hlt, rfl⟩ := List.getElem?_eq_some_iff.mp hget
    obtain ⟨i, hi, hnot⟩ := exists_unconfirmed hcard
    have hlt' := Nat.lt_of_le_of_lt hi hlt
    exact ⟨i, _, List.getElem?_eq_getElem hlt', hnot, (hordered i _ hlt' hlt hi).trans hold⟩
  · intro now newest hlt hlast hold
    refine stalled_iff.mpr ⟨_, List.getElem?_eq_getElem hlt, ?_⟩
    rw [List.getLast?_eq_getElem?] at hlast
    obtain ⟨hlt', rfl⟩ := List.getElem?_eq_some_iff.mp hlast
    exact (hordered _ _ hlt hlt' (Nat.le_sub_one_of_lt hlt)).trans hold

/-! ### Runs -/

/-- A call adds its time behind the sent ones or forgets those. -/
theorem sendTimes_step {s : SellTransfers × Ledger} (h : s.1.Tracks s.2) (hc : Accepted s c) :
    List.Sublist (((traced s c).1.sent.map (·.time)) ++ sendTimes calls)
      (s.1.sent.map (·.time) ++ sendTimes (c :: calls)) := by
  have hsent := (h.step hc).sent
  rw [hsent, h.sent]
  cases c with
  | sent slot now => simp [traced, Ledger.call, sendTimes]
  | acknowledgeSlot slot =>
      have hsame : (s.2.call (.acknowledgeSlot slot)).sent = s.2.sent := by
        rw [Ledger.call]
        split <;> rfl
      simp [traced, hsame, sendTimes]
  | acknowledgePayout =>
      have hsame : (s.2.call .acknowledgePayout).sent = s.2.sent := by
        rw [Ledger.call]
        split <;> rfl
      simp [traced, hsame, sendTimes]
  | reset => simp [traced, Ledger.call, sendTimes]

theorem Tracks.along {s : SellTransfers × Ledger} (h : s.1.Tracks s.2)
    (haccepted : Meets traced Accepted s calls)
    (htimes : (s.1.sent.map (·.time) ++ sendTimes calls).Pairwise (· ≤ ·)) :
    Along traced (fun s => s.1.Windowed s.2) s calls := by
  induction calls generalizing s with
  | nil => exact h.windowed (by simpa [sendTimes] using htimes)
  | cons c calls ih =>
      obtain ⟨hc, hrest⟩ := haccepted
      refine ⟨h.windowed (List.pairwise_append.mp htimes).1, ih (h.step hc) hrest ?_⟩
      exact htimes.sublist (sendTimes_step h hc)

theorem transfers_windowed (calls : List Call) (haccepted : Meets traced Accepted ({}, {}) calls)
    (htimes : (sendTimes calls).Pairwise (· ≤ ·)) :
    Along traced (fun s => s.1.Windowed s.2) ({}, {}) calls :=
  tracks_empty.along haccepted htimes

instance (s : SellTransfers × Ledger) (c : Call) : Decidable (Accepted s c) := by
  unfold Accepted
  split <;> infer_instance

/-- Two stacks are sent, the second one is reported by both sources, and the first never. -/
theorem transfers_windowed_twice :
    Along traced (fun s => s.1.Windowed s.2) ({}, {})
      [.sent 3 0, .sent 7 10, .acknowledgeSlot 7, .acknowledgePayout, .reset, .sent 3 20] :=
  transfers_windowed _ (by decide) (by decide)

end AfkClient.Native.SellTransfers

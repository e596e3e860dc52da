import AfkClient.Library.Run
import AfkClient.Verification.Native.Events
import Mathlib.Tactic.IntervalCases

/-! The pauses after a rejection and the leases of the bots: neither stops a sale for good,
and nothing is sold without a controller that lives. -/

namespace AfkClient.Native

open Method

/-! ### Pauses -/

namespace SellRecovery

inductive Call where
  | rejected (now : ℤ)
  | confirmed
  deriving DecidableEq, Repr

def call (r : SellRecovery) : Call → SellRecovery
  | .rejected now => r.rejected now
  | .confirmed => r.confirmed

def times (calls : List Call) : List ℤ :=
  calls.filterMap fun
    | .rejected now => some now
    | .confirmed => none

/-- The times of the last rejection, and of the last one that did not follow a counted one
within a second. -/
structure Rejections where
  last : Option ℤ := none
  counted : Option ℤ := none
  deriving DecidableEq

def Rejections.call (p : Rejections) : Call → Rejections
  | .rejected now =>
      { last := some now, counted := if p.counted.all (· + 1000 ≤ now) then some now else p.counted }
  | .confirmed => p

def traced (s : SellRecovery × Rejections) (c : Call) : SellRecovery × Rejections :=
  (s.1.call c, s.2.call c)

/-- `2000L << Math.max(0, failures - 1)` -/
def backoff (r : SellRecovery) : BitVec 64 := 2000#64 <<< (r.failures - 1)

/-- A pause ends, and its length is computed without overflow. -/
structure Paced (r : SellRecovery) (p : Rejections) : Prop where
  unpaused : ∀ last, p.last = some last → ∀ t, last + 30000 ≤ t → r.paused t = false
  backoff : r.backoff.toInt = 2000 * 2 ^ (r.failures - 1)

/-- A call never shortens the pause, and in a burst only its first rejection counts. -/
structure Coalesced (s : SellRecovery × Rejections) (c : Call) : Prop where
  pausedUntil : s.1.pausedUntil ≤ (s.1.call c).pausedUntil
  failures : ∀ now counted, c = .rejected now → s.2.counted = some counted → now < counted + 1000 →
    (s.1.call c).failures = s.1.failures

variable {r : SellRecovery} {p : Rejections} {now : ℤ}

/-- What holds up to a time of the clock. -/
structure Upto (r : SellRecovery) (p : Rejections) : Prop where
  failures : r.failures ≤ 5
  counted : ∀ counted, p.counted = some counted → r.lastRejection = counted
  uncounted : p.counted = none → r.lastRejection = -4611686018427387904
  pausedUntil : ∀ last, p.last = some last → r.pausedUntil ≤ last + 30000
  unpaused : p.last = none → r.pausedUntil = 0

theorem upto_init : Upto {} {} := ⟨by decide, nofun, fun _ => rfl, nofun, fun _ => rfl⟩

theorem Upto.paced (h : r.Upto p) : r.Paced p := by
  constructor
  · intro last hlast t ht
    have := h.pausedUntil last hlast
    simp only [paused, decide_eq_false_iff_not]
    omega
  · have hfailures := h.failures
    unfold SellRecovery.backoff
    generalize r.failures = n at hfailures ⊢
    interval_cases n <;> decide

/-- The first rejection of a burst is the one that is counted. -/
theorem Upto.fresh_iff (h : r.Upto p) (hnow : 0 ≤ now) :
    now - r.lastRejection ≥ 1000 ↔ p.counted.all (· + 1000 ≤ now) := by
  cases hcounted : p.counted with
  | none =>
      have := h.uncounted hcounted
      simp only [Option.all_none, iff_true]
      omega
  | some counted =>
      have := h.counted counted hcounted
      simp only [Option.all_some, decide_eq_true_eq]
      omega

theorem rejected_pausedUntil (r : SellRecovery) (now : ℤ) :
    r.pausedUntil ≤ (r.rejected now).pausedUntil ∧
      (r.rejected now).pausedUntil ≤ max r.pausedUntil (now + 30000) := by
  simp only [rejected]
  split
  · dsimp only
    omega
  · omega

theorem Upto.rejected (h : r.Upto p) (hnow : p.last.getD 0 ≤ now) (hpositive : 0 ≤ now) :
    (r.rejected now).Upto (p.call (.rejected now)) := by
  have hfresh := h.fresh_iff hpositive
  have huntil := (r.rejected_pausedUntil now).2
  have hbefore : r.pausedUntil ≤ now + 30000 := by
    cases hlast : p.last with
    | none =>
        rw [h.unpaused hlast]
        omega
    | some last =>
        have := h.pausedUntil last hlast
        rw [hlast, Option.getD_some] at hnow
        omega
  have hfailures := h.failures
  refine ⟨?_, ?_, ?_, ?_, nofun⟩
  · simp only [SellRecovery.rejected]
    split
    · exact Nat.min_le_left _ _
    · exact hfailures
  · intro counted hcounted
    simp only [Rejections.call] at hcounted
    by_cases hcount : now - r.lastRejection ≥ 1000
    · rw [if_pos (hfresh.mp hcount)] at hcounted
      simpa [SellRecovery.rejected, hcount] using hcounted
    · rw [if_neg (mt hfresh.mpr hcount)] at hcounted
      simpa [SellRecovery.rejected, hcount] using h.counted counted hcounted
  · intro hcounted
    simp only [Rejections.call] at hcounted
    split at hcounted
    · cases hcounted
    · rename_i hnot
      simp [hcounted] at hnot
  · intro last hlast
    obtain rfl : now = last := Option.some.inj hlast
    omega

theorem Upto.call {s : SellRecovery × Rejections} {c : Call} {calls : List Call} (h : s.1.Upto s.2)
    (htimes : (0 :: s.2.last.getD 0 :: times (c :: calls)).Pairwise (· ≤ ·)) :
    (traced s c).1.Upto (traced s c).2 := by
  cases c with
  | confirmed =>
      exact ⟨Nat.zero_le 5, h.counted, h.uncounted, h.pausedUntil, h.unpaused⟩
  | rejected now =>
      simp only [times, List.filterMap_cons, List.pairwise_cons, List.mem_cons] at htimes
      exact h.rejected (htimes.2.1 now (.inl rfl)) (htimes.1 now (.inr (.inl rfl)))

theorem Upto.coalesced {s : SellRecovery × Rejections} {c : Call} (h : s.1.Upto s.2) : Coalesced s c := by
  constructor
  · cases c with
    | confirmed => exact Int.le_refl _
    | rejected now => exact (s.1.rejected_pausedUntil now).1
  · rintro now counted rfl hcounted hburst
    have hlast := h.counted counted hcounted
    have hold : ¬ now - s.1.lastRejection ≥ 1000 := by omega
    simp [SellRecovery.call, SellRecovery.rejected, hold]

/-- The clock is never behind the last rejection. -/
theorem times_step {s : SellRecovery × Rejections} {c : Call} {calls : List Call}
    (htimes : (0 :: s.2.last.getD 0 :: times (c :: calls)).Pairwise (· ≤ ·)) :
    (0 :: (traced s c).2.last.getD 0 :: times calls).Pairwise (· ≤ ·) := by
  cases c with
  | confirmed => exact htimes
  | rejected now => exact htimes.sublist (.cons_cons _ (.cons _ (.refl _)))

theorem Upto.along {s : SellRecovery × Rejections} {calls : List Call} (h : s.1.Upto s.2)
    (htimes : (0 :: s.2.last.getD 0 :: times calls).Pairwise (· ≤ ·)) :
    Along traced (fun s => s.1.Paced s.2) s calls ∧ Meets traced Coalesced s calls := by
  induction calls generalizing s with
  | nil => exact ⟨h.paced, trivial⟩
  | cons c calls ih =>
      obtain ⟨halong, hmeets⟩ := ih (h.call htimes) (times_step htimes)
      exact ⟨⟨h.paced, halong⟩, h.coalesced, hmeets⟩

end SellRecovery

/-! ### Leases -/

namespace SellLease

/-- A call of `renew`. -/
structure Renewal (Uuid : Type) where
  key : Uuid × Uuid
  deadline : ℤ
  now : ℤ
  deriving DecidableEq, Repr

/-- When a granted lease ends. -/
def Renewal.until {Uuid : Type} (r : Renewal Uuid) : ℤ := min r.deadline (r.now + maxMillis)

namespace Deadlines

variable {Uuid : Type} {d : Deadlines Uuid} {last : Uuid × Uuid → Option (Renewal Uuid)}
  {clock : ℤ} {r : Renewal Uuid} {renewals : List (Renewal Uuid)}

/-- From now on a lease is valid as long as the last renewal of its key granted it. -/
def Granted (d : Deadlines Uuid) (last : Uuid × Uuid → Option (Renewal Uuid)) (clock : ℤ) : Prop :=
  ∀ key t, clock ≤ t → (d.valid key t ↔ ∃ r, last key = some r ∧ t < r.until)

theorem granted_empty (clock : ℤ) : Granted (fun _ => none) (fun _ : Uuid × Uuid => none) clock := by
  simp [Granted, Deadlines.valid, SellLease.valid]

theorem Granted.later (h : d.Granted last clock) {now : ℤ} (hnow : clock ≤ now) :
    d.Granted last now :=
  fun key t ht => h key t (hnow.trans ht)

variable [DecidableEq Uuid]

def call (d : Deadlines Uuid) (r : Renewal Uuid) : Deadlines Uuid := d.renew r.key r.deadline r.now

def lastOf (renewals : List (Renewal Uuid)) (key : Uuid × Uuid) : Option (Renewal Uuid) :=
  (renewals.filter (·.key = key)).getLast?

/-- What is purged for another key had run out before. -/
theorem Granted.renew (h : d.Granted last clock) (hnow : clock ≤ r.now) :
    (d.call r).Granted (Function.update last r.key (some r)) r.now := by
  intro key t ht
  by_cases hkey : key = r.key
  · subst hkey
    simp only [call, Deadlines.valid, Deadlines.renew, Function.update_self, SellLease.renew,
      Option.some.injEq, exists_eq_left']
    split
    · simp only [SellLease.valid, Option.any_none, Bool.false_eq_true, false_iff, Renewal.until]
      omega
    · simp [SellLease.valid, Renewal.until]
  · have hvalid : (d.call r).valid key t ↔ d.valid key t := by
      simp only [call, Deadlines.valid, Deadlines.renew, Function.update_of_ne hkey,
        SellLease.valid]
      cases d key with
      | none => rfl
      | some deadline =>
          by_cases hlive : r.now < deadline
          · simp [hlive]
          · simp only [Option.filter_some, hlive, decide_false, Bool.false_eq_true, if_false,
              Option.any_none, Option.any_some, decide_eq_true_eq, false_iff]
            omega
    rw [hvalid, Function.update_of_ne hkey]
    exact h key t (hnow.trans ht)

theorem lastOf_concat (renewals : List (Renewal Uuid)) (r : Renewal Uuid) :
    lastOf (renewals ++ [r]) = Function.update (lastOf renewals) r.key (some r) := by
  funext key
  by_cases hkey : key = r.key
  · subst hkey
    simp [lastOf]
  · have hother : ¬ r.key = key := fun heq => hkey heq.symm
    simp [lastOf, hkey, hother]

/-- A trace of renewals. -/
theorem granted_run (hrenewals : (renewals.map (·.now)).Pairwise (· ≤ ·)) (clock : ℤ)
    (hclock : ∀ r ∈ renewals.getLast?, r.now ≤ clock) :
    (run call (fun _ => none) renewals).Granted (lastOf renewals) clock := by
  induction renewals using List.reverseRecOn generalizing clock with
  | nil => exact granted_empty clock
  | append_singleton renewals r ih =>
      rw [List.map_append, List.pairwise_append] at hrenewals
      obtain ⟨hbefore, -, hlast⟩ := hrenewals
      have hr : r.now ≤ clock := hclock r (by simp)
      rw [run_append, lastOf_concat]
      refine Granted.later ?_ hr
      refine (ih hbefore r.now fun r' hr' => ?_).renew (Int.le_refl _)
      exact hlast r'.now (List.mem_map_of_mem (List.mem_of_getLast? hr')) r.now (by simp)

end Deadlines

end SellLease

/-! ### A tick without a lease -/

/-- The client sends the sell command or moves a stack. -/
def SaleEvent.Sells : SaleEvent → Prop
  | .command _ | .chat _ | .quickMove .. => True
  | _ => False

/-- Nothing was sold on the way to `b'`. -/
def Unsold (b b' : Bot) : Prop :=
  b'.lease = b.lease ∧ Adds (fun event => ¬ event.Sells) b.log b'.log

theorem Unsold.refl (b : Bot) : Unsold b b := ⟨rfl, Adds.refl _ _⟩

theorem Unsold.trans {b b' b'' : Bot} (h : Unsold b b') (h' : Unsold b' b'') : Unsold b b'' :=
  ⟨h'.1.trans h.1, h.2.trans h'.2⟩

theorem SaleEvent.Plain.unsold {event : SaleEvent} (h : event.Plain) : ¬ event.Sells := by
  cases event <;> first | exact id | exact h.elim

theorem Unsold.closeContainer (b : Bot) (manual : Bool) : Unsold b (b.closeContainer manual) := by
  refine ⟨?_, (b.closeContainer_adds manual).mono fun _ => SaleEvent.Plain.unsold⟩
  unfold Bot.closeContainer
  split <;> rfl

/-- Code that sells nothing, wherever it ends. -/
abbrev NoSale {α : Type} (m : Code α) : Prop :=
  Within (fun th th' : Thread => Unsold th.bot th'.bot) m

namespace NoSale

variable {α β : Type} {m : Code β} {f : β → Code α}

theorem pure (a : α) : NoSale (Pure.pure a) := Within.pure (fun th => Unsold.refl th.bot) a

theorem bind (hm : NoSale m) (hf : ∀ b, NoSale (f b)) : NoSale (m >>= f) :=
  Within.bind (fun _ _ _ h h' => Unsold.trans h h') hm hf

theorem when {c : Prop} [Decidable c] {m : Code Unit} (hm : NoSale m) : NoSale (Method.when c m) :=
  Within.when (fun th => Unsold.refl th.bot) hm

theorem call : NoSale call := fun _ => wp_call (fun _ => Unsold.refl _) (Unsold.refl _)

theorem change {f : Bot → Bot} (h : ∀ b, Unsold b (f b)) : NoSale (Native.change f) :=
  fun th => h th.bot

theorem edit (f : SaleState → SaleState) : NoSale (Native.edit f) :=
  change fun b => ⟨rfl, Adds.refl _ b.log⟩

theorem orThrow (x : Option α) : NoSale (Native.orThrow x) := by
  cases x with
  | none => exact Within.throw (fun th => Unsold.refl th.bot) Thrown.game
  | some a => exact pure a

/-- Such code in front of other code. -/
theorem next {b₀ : Bot} {Q : α → Thread → Prop} {th : Thread} (hm : NoSale m)
    (hth : Unsold b₀ th.bot)
    (hf : ∀ b th', Unsold b₀ th'.bot → wp (f b) Q (fun _ th' => Unsold b₀ th'.bot) th') :
    wp (m >>= f) Q (fun _ th' => Unsold b₀ th'.bot) th :=
  (hm th).bind (fun b th' h => hf b th' (hth.trans h)) fun _ _ h => hth.trans h

end NoSale

theorem closeContainer_noSale (manual : Bool) : NoSale (closeContainer manual) :=
  NoSale.call.bind fun _ => (NoSale.change fun b => Unsold.closeContainer b manual).bind fun _ =>
    NoSale.call

theorem cancel_noSale (manual : Bool) (elapsed : ℕ) : NoSale (cancel manual elapsed) := by
  refine Within.get fun th => ?_
  refine (closeContainer_noSale manual).when.bind fun _ => ?_
  refine (NoSale.edit _).bind fun _ => ?_
  refine NoSale.bind (.change fun b => ⟨rfl, Adds.refl _ b.log⟩) fun _ => ?_
  exact Within.get fun th => (NoSale.edit _).when

theorem configure_noSale (gson : String → Option SaleConfig) (settings : Settings) (now : ℤ) :
    NoSale (configure gson settings now) := by
  refine Within.get fun th => ?_
  dsimp only
  refine NoSale.when ((NoSale.edit _).bind fun _ => NoSale.when ?_)
  refine (NoSale.orThrow _).bind fun json => ?_
  refine (NoSale.orThrow _).bind fun enabled => (NoSale.edit _).bind fun _ => ?_
  refine (NoSale.orThrow _).bind fun interval => (NoSale.edit _).bind fun _ => ?_
  exact (NoSale.orThrow _).bind fun command => NoSale.edit _

theorem relocate_noSale (t : Tick) (player level now : ℤ) : NoSale (relocate t player level now) := by
  refine Within.get fun th => ?_
  dsimp only
  refine (NoSale.edit _).bind fun _ => NoSale.when ?_
  exact (NoSale.edit _).bind fun _ => cancel_noSale _ _

variable {gson : String → Option SaleConfig} {t : Tick} {th : Thread}

/-- Without a lease the gate is closed. -/
theorem blocked_closed {settings : Settings} {now : ℤ} (hlease : SellLease.valid th.bot.lease now = false) :
    wp (blocked settings now) (fun closed th' => closed = true ∧ th' = th) (fun _ _ => False) th := by
  refine (wp_bind _ _).mpr (wp_get.mpr (wp_ite.mpr ⟨fun _ => ⟨rfl, rfl⟩, fun hopen => ?_⟩))
  simp [hlease] at hopen

/-- A tick without a lease sells nothing. -/
theorem approach_unsold (hlease : SellLease.valid th.bot.lease th.bot.mc.clock = false) :
    wp (approach gson t) (fun next th' => next = .leave ∧ Unsold th.bot th'.bot)
      (fun _ th' => Unsold th.bot th'.bot) th := by
  have hcall : wp call (fun _ th' => th'.bot = th.bot) (fun _ th' => Unsold th.bot th'.bot) th :=
    wp_call (fun _ => rfl) (Unsold.refl _)
  refine wp.bind hcall (fun _ th₁ h₁ => ?_) fun _ _ h => h
  refine (wp_bind _ _).mpr (wp_get.mpr ?_)
  dsimp only
  rw [h₁]
  split
  · rename_i player level settings _ _ _ _
    refine NoSale.next (.edit _) (h₁ ▸ Unsold.refl _) fun _ th₂ h₂ => ?_
    refine NoSale.next .call h₂ fun _ th₃ h₃ => ?_
    refine NoSale.next (configure_noSale gson settings _) h₃ fun _ th₄ h₄ => ?_
    refine NoSale.next (relocate_noSale t player.hash level _) h₄ fun _ th₅ h₅ => ?_
    refine wp.bind (blocked_closed (h₅.1 ▸ hlease)) ?_ fun _ _ h => h.elim
    rintro closed th₆ ⟨rfl, rfl⟩
    refine wp_ite.mpr ⟨fun _ => ?_, fun hopen => absurd rfl hopen⟩
    refine NoSale.next (cancel_noSale _ _) h₅ fun _ th₇ h₇ => ?_
    exact NoSale.next (.edit _) h₇ fun _ th₈ h₈ => ⟨rfl, h₈⟩
  · exact ⟨rfl, h₁ ▸ Unsold.refl _⟩

theorem tickSale_unsold (hlease : SellLease.valid th.bot.lease th.bot.mc.clock = false) :
    wp (tickSale gson t) (fun _ th' => Unsold th.bot th'.bot) (fun _ th' => Unsold th.bot th'.bot) th := by
  refine (wp_bind _ _).mpr (wp_get.mpr ?_)
  refine wp.bind (approach_unsold hlease) ?_ fun _ _ h => h
  rintro next th₁ ⟨rfl, h₁⟩
  exact h₁

theorem tick_unsold (b : Bot) (hlease : SellLease.valid b.lease (b.mc.clock + t.elapsed) = false) :
    Adds (fun event => ¬ event.Sells) b.log (b.tick gson t).log := by
  have hsale := @tickSale_unsold gson t ⟨b.elapse t.elapsed, t.fault⟩ hlease
  refine wp.outcome (R := fun r : Thread × Option Thrown => Adds (fun event => ¬ event.Sells) b.log
    (r.2.elim r.1.bot (r.1.bot.caught t.beforeCatch)).log) (hsale.mono ?_ ?_)
  · exact fun _ th h => h.2
  · intro e th h
    change Adds _ b.log (th.bot.caught t.beforeCatch e).log
    rw [Bot.caught_log]
    exact h.2.trans (Adds.record id)

/-! ### The bots under one clock -/

/-- The clock and the record of a bot only grow. -/
structure Grows (b b' : Bot) : Prop where
  clock : b.mc.clock ≤ b'.mc.clock
  log : Adds (fun _ => True) b.log b'.log

theorem Grows.refl (b : Bot) : Grows b b := ⟨Int.le_refl _, Adds.refl _ _⟩

theorem Grows.trans {b b' b'' : Bot} (h : Grows b b') (h' : Grows b' b'') : Grows b b'' :=
  ⟨h.clock.trans h'.clock, h.log.trans h'.log⟩

theorem Grows.elapse (b : Bot) (n : ℕ) : Grows b (b.elapse n) :=
  ⟨Int.le_add_of_nonneg_right (Int.natCast_nonneg n), Adds.refl _ _⟩

theorem Grows.record (b : Bot) (event : SaleEvent) : Grows b (b.record event) :=
  ⟨Int.le_refl _, Adds.record trivial⟩

theorem Grows.closeContainer (b : Bot) (manual : Bool) : Grows b (b.closeContainer manual) := by
  refine ⟨?_, (b.closeContainer_adds manual).mono fun _ _ => trivial⟩
  unfold Bot.closeContainer
  split <;> exact Int.le_refl _

theorem Act.grows {now : ℤ} {manual moving : Bool} {b b' : Bot} (h : Act now manual moving b b') :
    Grows b b' := by
  cases h with
  | elapse n => exact Grows.elapse b n
  | close => exact Grows.closeContainer b manual
  | say => exact Grows.record b _
  | move => exact ⟨Int.le_refl _, Adds.record trivial⟩
  | _ => exact ⟨Int.le_refl _, Adds.refl _ _⟩

theorem Acts.grows {now : ℤ} {manual moving : Bool} {b b' : Bot} (h : Acts now manual moving b b') :
    Grows b b' :=
  h.keeps (P := fun b' => Grows b b') (fun _ _ hb hact => hb.trans hact.grows) (Grows.refl b)

theorem tick_grows (b : Bot) : Grows b (b.tick gson t) := by
  have hticked := @tickSale_ticked _ ⟨b.elapse t.elapsed, t.fault⟩ gson t rfl
  have hgrows : ∀ {b' : Bot} {now : ℤ},
      Ticked gson t now ⟨b.elapse t.elapsed, t.fault⟩ b' → Grows b b' := by
    rintro b' now (h | ⟨-, hbefore, h⟩)
    · exact (Grows.elapse b _).trans h.grows
    · exact (Grows.elapse b _).trans (hbefore.grows.trans h.grows)
  refine wp.outcome (R := fun r : Thread × Option Thrown =>
    Grows b (r.2.elim r.1.bot (r.1.bot.caught t.beforeCatch))) (hticked.mono ?_ ?_)
  · exact fun _ th h => hgrows h
  · intro e th h
    refine (hgrows h.1).trans ⟨?_, ?_⟩
    · have helapse := (Grows.elapse th.bot t.beforeCatch).clock
      change _ ≤ (th.bot.caught t.beforeCatch e).mc.clock
      unfold Bot.caught
      dsimp only
      split <;> exact helapse
    · change Adds _ _ (th.bot.caught t.beforeCatch e).log
      rw [Bot.caught_log]
      exact Adds.record trivial

theorem opened_clock (b : Bot) (containerId : ℤ) (title : List Char) (n : ℕ)
    (settings : Option Settings) : b.mc.clock ≤ (b.opened containerId title n settings).mc.clock := by
  have helapse := (Grows.elapse b n).clock
  rcases b.opened_cases containerId title n settings with heq | ⟨p, hp, hopened⟩
  · rw [heq]
    exact helapse
  · refine helapse.trans ?_
    have hp : (b.elapse n).mc.player = some p := hp
    generalize b.elapse n = b₁ at hp hopened
    generalize b.opened containerId title n settings = b₂ at hopened
    have hshown := show b₁.mc.clock ≤ (b₁.mc.openScreen containerId title).clock by
      simp [Minecraft.openScreen, hp]
    cases hopened with
    | discarded =>
        exact hshown.trans (Grows.closeContainer ((b₁.shown _ _ _).edit _) _).clock
    | _ => exact hshown

theorem inventoryMessage_clock (b : Bot) (message : List Char) (n : ℕ) :
    b.mc.clock ≤ (b.inventoryMessage message n).mc.clock := by
  unfold Bot.inventoryMessage
  dsimp only
  split <;> exact (Grows.elapse b n).clock

theorem serverMessage_clock (b : Bot) (message : List Char) (n : ℕ) :
    b.mc.clock ≤ (b.serverMessage message n).mc.clock := by
  refine (inventoryMessage_clock b message n).trans (Int.le_of_eq ?_)
  unfold Bot.serverMessage
  generalize b.inventoryMessage message n = b'
  dsimp only
  split
  · split <;> rfl
  · rfl

theorem inventoryAck_clock (b : Bot) (menu slot : ℤ) (items : List (Option Stack)) :
    (b.inventoryAck menu slot items).mc.clock = b.mc.clock := by
  unfold Bot.inventoryAck
  generalize hb₁ : (if slot = -1 ∧ b.mc.containerMenu.any (·.containerId = menu) then
    ({ b with mc := { b.mc with received := true } } : Bot) else b) = b₁
  have hclock : b₁.mc.clock = b.mc.clock := by subst hb₁; split <;> rfl
  rw [← hclock]
  dsimp only
  split
  · rfl
  · rename_i st hstate
    generalize hb₂ : (if menu = st.contentMenu ∧ slot = -1 then
      b₁.edit (fun st => { st with contentReady := true }) else b₁) = b₂
    have hclock₂ : b₂.mc = b₁.mc := by subst hb₂; split <;> rfl
    rw [← hclock₂]
    split
    · rfl
    · split
      · split <;> rfl
      · rfl

/-- The clock never goes back. -/
theorem step_clock (b : Bot) (i : Input) : b.mc.clock ≤ (b.step gson i).mc.clock := by
  cases i with
  | tick t => exact (tick_grows b).clock
  | opened containerId title n settings => exact opened_clock b containerId title n settings
  | inventoryAck menu slot items => exact (inventoryAck_clock b menu slot items).ge
  | inventoryMessage message n => exact inventoryMessage_clock b message n
  | serverMessage message n => exact serverMessage_clock b message n
  | collected =>
      change _ ≤ b.collected.mc.clock
      unfold Bot.collected
      split
      · split <;> exact Int.le_refl _
      · exact Int.le_refl _
  | renewed deadline n => exact (Grows.elapse b n).clock
  | _ => exact Int.le_refl _

/-- Without a lease at its clock reading a tick sells nothing, and no other step ever does. -/
theorem step_sells (b : Bot) (i : Input) :
    Adds (fun event => event.Sells →
      ∃ t, i = .tick t ∧ SellLease.valid b.lease (b.mc.clock + t.elapsed)) b.log (b.step gson i).log := by
  by_cases hi : ∀ t, i ≠ .tick t
  · exact (adds_step b gson hi).mono fun _ hplain hsells => absurd hsells hplain.unsold
  · obtain ⟨t, rfl⟩ : ∃ t, i = .tick t := by simpa using hi
    by_cases hlease : SellLease.valid b.lease (b.mc.clock + t.elapsed)
    · exact (tick_grows b).log.mono fun _ _ _ => ⟨t, rfl, hlease⟩
    · have hunsold := @tick_unsold gson t b (by simpa using hlease)
      exact hunsold.mono fun _ hnot hsells => absurd hsells hnot

namespace Server

open SellLease SellLease.Deadlines

variable {Uuid : Type} [DecidableEq Uuid]

/-- The bots, and the last renewal of each one's lease. -/
abbrev Recorded (Uuid : Type) := Server Uuid × (Uuid × Uuid → Option (Renewal Uuid))

def recorded (gson : String → Option SaleConfig) (s : Recorded Uuid) (i : (Uuid × Uuid) × Input) :
    Recorded Uuid :=
  let next := s.1.step gson i
  (next, match i.2 with
    | .renewed deadline _ => Function.update s.2 i.1 (some ⟨i.1, deadline, next.clock⟩)
    | _ => s.2)

/-- Only a tick sells, and only if its clock reading is within the lease of the bot's last renewal. -/
def Leased (gson : String → Option SaleConfig) (s : Recorded Uuid) (i : (Uuid × Uuid) × Input) : Prop :=
  (∀ key, key ≠ i.1 → (s.1.step gson i).bots key = s.1.bots key) ∧
    Adds (fun event => event.Sells → ∃ t r, i.2 = .tick t ∧ s.2 i.1 = some r ∧
      s.1.clock + t.elapsed < r.deadline ∧ s.1.clock + t.elapsed < r.now + 90000)
      (s.1.bots i.1).log ((s.1.step gson i).bots i.1).log

theorem granted_step {s : Recorded Uuid} (h : s.1.deadlines.Granted s.2 s.1.clock)
    (i : (Uuid × Uuid) × Input) :
    (recorded gson s i).1.deadlines.Granted (recorded gson s i).2 (recorded gson s i).1.clock := by
  obtain ⟨key, input⟩ := i
  have hclock : s.1.clock ≤ (s.1.step gson (key, input)).clock := step_clock (s.1.current key) input
  cases input with
  | renewed deadline n => exact h.renew (r := ⟨key, deadline, _⟩) hclock
  | _ => exact h.later hclock

theorem leased_step {s : Recorded Uuid} (h : s.1.deadlines.Granted s.2 s.1.clock)
    (i : (Uuid × Uuid) × Input) : Leased gson s i := by
  obtain ⟨key, input⟩ := i
  refine ⟨fun other hother => Function.update_of_ne hother _ _, ?_⟩
  have hbot : (s.1.step gson (key, input)).bots key = (s.1.current key).step gson input :=
    Function.update_self _ _ _
  rw [hbot]
  refine (step_sells (s.1.current key) input).mono fun event hevent hsells => ?_
  obtain ⟨t, rfl, hvalid⟩ := hevent hsells
  obtain ⟨r, hr, huntil⟩ := (h key _ (Int.le_add_of_nonneg_right (Int.natCast_nonneg _))).mp hvalid
  have huntil := lt_min_iff.mp huntil
  exact ⟨t, r, rfl, hr, huntil.1, huntil.2⟩

theorem leased_run (clock : ℤ) (inputs : List ((Uuid × Uuid) × Input)) :
    Meets (recorded gson) (Leased gson) (.init clock, fun _ => none) inputs :=
  meets_of_preserved (P := fun s => s.1.deadlines.Granted s.2 s.1.clock) (D := fun _ _ => True)
    (fun _ i h _ => ⟨granted_step h i, leased_step h i⟩) (granted_empty clock) meets_true

end Server

/-- Pauses end, a lease lasts as its last renewal says, and no bot sells without one. -/
theorem sales_supervised {Uuid : Type} [DecidableEq Uuid] (gson : String → Option SaleConfig)
    (calls : List SellRecovery.Call) (hcalls : (0 :: SellRecovery.times calls).Pairwise (· ≤ ·))
    (renewals : List (SellLease.Renewal Uuid))
    (hrenewals : (renewals.map (·.now)).Pairwise (· ≤ ·)) (clock : ℤ)
    (inputs : List ((Uuid × Uuid) × Input)) :
    (Along SellRecovery.traced (fun s => s.1.Paced s.2) ({}, {}) calls ∧
      Meets SellRecovery.traced SellRecovery.Coalesced ({}, {}) calls) ∧
    (∀ key t, (∀ r ∈ renewals.getLast?, r.now ≤ t) →
      ((run SellLease.Deadlines.call (fun _ => none) renewals).valid key t ↔
        ∃ r, SellLease.Deadlines.lastOf renewals key = some r ∧
          t < min r.deadline (r.now + 90000))) ∧
    Meets (Server.recorded gson) (Server.Leased gson) (.init clock, fun _ => none) inputs := by
  refine ⟨SellRecovery.upto_init.along ?_, fun key t ht => ?_, Server.leased_run clock inputs⟩
  · simpa using hcalls
  · exact SellLease.Deadlines.granted_run hrenewals t ht key t (Int.le_refl t)

/-- Two rejections in one second, a payout and a late one; a renewal of another bot's lease
purges the bot's own one, whose last renewal had run out. -/
theorem sales_supervised_late :
    (Along SellRecovery.traced (fun s => s.1.Paced s.2) ({}, {})
        [.rejected 5, .rejected 900, .confirmed, .rejected 1000] ∧
      Meets SellRecovery.traced SellRecovery.Coalesced ({}, {})
        [.rejected 5, .rejected 900, .confirmed, .rejected 1000]) ∧
    (∀ key t, (∀ r ∈ [(⟨(0, 0), 50, 1⟩ : SellLease.Renewal ℕ), ⟨(0, 1), 400000, 60⟩].getLast?,
        r.now ≤ t) →
      ((run SellLease.Deadlines.call (fun _ => none)
          [⟨(0, 0), 50, 1⟩, ⟨(0, 1), 400000, 60⟩]).valid key t ↔
        ∃ r, SellLease.Deadlines.lastOf [⟨(0, 0), 50, 1⟩, ⟨(0, 1), 400000, 60⟩] key = some r ∧
          t < min r.deadline (r.now + 90000))) ∧
    Meets (Server.recorded fun _ => none) (Server.Leased fun _ => none) (.init 0, fun _ => none)
      [((0, 0), .renewed 50 1), ((0, 1), .renewed 400000 59), ((0, 0), .collected)] :=
  sales_supervised _ _ (by decide) _ (by decide) _ _

end AfkClient.Native

import AfkClient.Model.Session
import AfkClient.Verification.Behaviors.Frames
import Mathlib.Data.List.Basic

/-! What every step of a session can do: a task goes on to its next call or ends, a call
goes on to its next remote call or returns. Calls that concern neither the held keys
nor the home gate nor a pause leave all of these alone. -/

namespace AfkClient

open AfkClient.Task

/-! ### Tasks in flight -/

theorem exists_split {α : Type*} {l : List α} {n : ℕ} {a : α} (h : l[n]? = some a) :
    ∃ l₁ l₂, l = l₁ ++ a :: l₂ ∧ l.eraseIdx n = l₁ ++ l₂ ∧ ∀ b, l.set n b = l₁ ++ b :: l₂ := by
  induction l generalizing n with
  | nil => simp at h
  | cons x xs ih =>
      cases n with
      | zero =>
          obtain rfl : x = a := by simpa using h
          exact ⟨[], xs, rfl, rfl, fun b => rfl⟩
      | succ n =>
          obtain ⟨l₁, l₂, hl, herase, hset⟩ := ih (by simpa using h)
          refine ⟨x :: l₁, l₂, by simp [hl], by simp [herase], fun b => ?_⟩
          rw [List.set_cons_succ, hset]
          rfl

namespace Session

/-- A task goes on to its next call, or ends. -/
theorem settle_cases {K : Contract SessionVars SessionCall SessionCall.Reply Failure}
    {Q : Start SessionVars SessionCall SessionCall.Reply Failure → Except Failure Ending →
      SessionVars → Prop} {start} (s : Session) (job : Job) {t : Code Ending}
    (h : t.Keeps K Q start s.vars) :
    (∃ c next vars,
        s.settle job t = { s with vars := vars, current := some (.calling ⟨job, c, next⟩) } ∧
          K.call start c vars ∧
          ∀ a s', K.back c a s' → (next a).Keeps K Q ⟨s', some ⟨c, a⟩⟩ s') ∨
      ∃ r vars, s.settle job t = { s with vars := vars }.finish job r ∧ Q start r vars := by
  have hadvance := h.advance
  unfold settle
  generalize t.advance s.vars = result at hadvance
  cases result with
  | mk vars paused =>
      cases paused with
      | ended r => exact .inr ⟨r, vars, rfl, hadvance⟩
      | calling c next => exact .inl ⟨c, next, vars, rfl, hadvance.1, hadvance.2⟩

/-- A call of the gateway goes on to its next remote call, or returns. -/
theorem enter_cases {K : Contract Gateway Rpc Rpc.Reply Failure} {start} (s : Session)
    (c : Calling) {Q : Start Gateway Rpc Rpc.Reply Failure → Except Failure c.call.Reply →
      Gateway → Prop} {t : Gateway.Code c.call.Reply} (h : t.Keeps K Q start s.gateway) :
    (∃ rpc resume gateway,
        s.enter c t = { s with
          gateway := gateway, current := none
          inFlight := { c with rpc := rpc, resume := resume } :: s.inFlight } ∧
          K.call start rpc gateway ∧
          ∀ a g, K.back rpc a g → (resume a).Keeps K Q ⟨g, some ⟨rpc, a⟩⟩ g) ∨
      ∃ r gateway,
        s.enter c t = ({ s with gateway := gateway }.noteReturn c.call r).settle c.job (c.next r) ∧
          Q start r gateway := by
  have hadvance := h.advance
  unfold enter
  generalize t.advance s.gateway = result at hadvance
  cases result with
  | mk gateway paused =>
      cases paused with
      | ended r => exact .inr ⟨r, gateway, rfl, hadvance⟩
      | calling rpc resume => exact .inl ⟨rpc, resume, gateway, rfl, hadvance.1, hadvance.2⟩

end Session

/-! ### The held keys -/

/-- The settings that `held` writes. -/
@[ext] structure HeldKeys where
  button : AutoButton
  crouch : Bool
  sell : SellConfig
  deriving DecidableEq

/-- The held keys once an entry is written. -/
def HeldKeys.set (k : HeldKeys) : Setting → HeldKeys
  | .autoButton value => { k with button := value }
  | .crouchEnabled value => { k with crouch := value }
  | .nativeAutoSell value => { k with sell := value }
  | _ => k

def NativeSettings.keys (n : NativeSettings) : HeldKeys :=
  ⟨n.autoButton, n.crouchEnabled, n.nativeAutoSell⟩

def Gateway.keys (g : Gateway) : HeldKeys := ⟨g.heldButton, g.heldCrouch, g.nativeSellConfig⟩

def BehaviorConfig.keys (c : BehaviorConfig) : HeldKeys := ⟨c.button, c.crouch, c.sellConfig⟩

/-- The held keys once a remote call is applied. -/
def HeldKeys.after (k : HeldKeys) : Rpc → HeldKeys
  | .updateBotConfigEntry e => k.set e
  | _ => k

/-- The names of the held keys. -/
inductive HeldKey where
  | button | crouch | sell
  deriving DecidableEq

/-- Both agree on one key. -/
def HeldKeys.Same (a b : HeldKeys) : HeldKey → Prop
  | .button => a.button = b.button
  | .crouch => a.crouch = b.crouch
  | .sell => a.sell = b.sell

theorem HeldKeys.Same.symm {a b : HeldKeys} {key : HeldKey} (h : a.Same b key) : b.Same a key := by
  cases key <;> exact Eq.symm h

theorem HeldKeys.Same.trans {a b c : HeldKeys} {key : HeldKey} (h : a.Same b key)
    (h' : b.Same c key) : a.Same c key := by
  cases key <;> exact Eq.trans h h'

theorem HeldKeys.same_refl (a : HeldKeys) (key : HeldKey) : a.Same a key := by
  cases key <;> rfl

theorem HeldKeys.eq_of_same {a b : HeldKeys} (h : ∀ key, a.Same b key) : a = b :=
  HeldKeys.ext (h .button) (h .crouch) (h .sell)

/-- The held key a remote call writes. -/
def Rpc.key : Rpc → Option HeldKey
  | .updateBotConfigEntry (.autoButton _) => some .button
  | .updateBotConfigEntry (.crouchEnabled _) => some .crouch
  | .updateBotConfigEntry (.nativeAutoSell _) => some .sell
  | _ => none

def Rpc.isPause : Rpc → Bool
  | .updateBotConfigEntry (.sellPauseFrom _) => true
  | .updateBotConfigEntry (.sellPauseUntil _) => true
  | _ => false

theorem HeldKeys.after_of_key_none (k : HeldKeys) {rpc : Rpc} (h : rpc.key = none) : k.after rpc = k := by
  cases rpc with
  | updateBotConfigEntry e => cases e <;> first | rfl | simp [Rpc.key] at h
  | _ => rfl

/-- A call that writes the desired value of a key makes that key as desired. -/
theorem HeldKeys.same_after {d k : HeldKeys} {rpc : Rpc} (hd : d.after rpc = d) {key : HeldKey}
    (h : rpc.key = some key) : (k.after rpc).Same d key := by
  cases rpc with
  | updateBotConfigEntry e =>
      cases e <;> simp only [Rpc.key, Option.some.injEq, reduceCtorEq] at h <;> subst h <;>
        simp_all [HeldKeys.after, HeldKeys.set, HeldKeys.Same, HeldKeys.ext_iff]
  | _ => simp [Rpc.key] at h

theorem HeldKeys.same_after_of_ne {k : HeldKeys} {rpc : Rpc} {key : HeldKey}
    (h : rpc.key ≠ some key) : (k.after rpc).Same k key := by
  cases rpc with
  | updateBotConfigEntry e => cases e <;> cases key <;> simp_all [after, set, Same, Rpc.key]
  | _ => cases key <;> rfl

@[simp] theorem NativeSettings.keys_apply (n : NativeSettings) (rpc : Rpc) :
    (rpc.apply n).keys = n.keys.after rpc := by
  cases rpc with
  | updateBotConfigEntry e => cases e <;> rfl
  | _ => rfl

/-! ### Calls that concern none of this -/

/-- A remote call that writes neither held keys nor the home gate nor a pause. -/
def Rpc.Plain : Rpc → Prop
  | .updateBotConfigEntry (.sellManualUntil _) => True
  | .updateBotConfigEntry (.sellLeaseUntil _) => True
  | .updateBotConfigEntry (.sneakCheck _) => True
  | .updateBotConfigEntry _ => False
  | _ => True

/-- What the gateway remembers of held keys and the home gate, and its clock. -/
structure Gateway.Caches where
  keys : HeldKeys
  homePending : Bool
  now : ℤ

def Gateway.caches (g : Gateway) : Gateway.Caches := ⟨g.keys, g.homePending, g.now⟩

def SessionCall.Plain : SessionCall → Prop
  | .game c => Behaviors.Plain c
  | .nativeSellPause .. => False
  | _ => True

namespace Gateway

/-- Gateway code that leaves the caches alone. -/
abbrev Aloof {α : Type} (t : Code α) : Prop := t.Within caches Rpc.Plain

theorem rpc_aloof {c : Rpc} (h : c.Plain) : Aloof (rpc c) := within_perform.mpr h

theorem completed_aloof (fallback : String) (result : Option String) :
    Aloof (completed fallback result) := by
  cases result with
  | none => exact within_pure ()
  | some error => exact within_fail _

theorem renewSellLease_aloof : Aloof renewSellLease :=
  .bind within_read fun _ => .bind (rpc_aloof trivial) fun _ => within_update.mpr fun _ => rfl

theorem renewSellLeaseAside_aloof : Aloof renewSellLeaseAside :=
  .bind (within_update.mpr fun _ => rfl) fun _ =>
    .bind (.orCatch renewSellLease_aloof fun _ => within_update.mpr fun _ => rfl) fun _ =>
      within_update.mpr fun _ => rfl

theorem suspendSell_aloof (duration : ℤ) : Aloof (suspendSell duration) :=
  .bind within_read fun _ =>
    .when _ (.bind (rpc_aloof trivial) fun _ => within_update.mpr fun _ => rfl)

theorem sneak_aloof : Aloof sneak :=
  .bind (within_update.mpr fun _ => rfl) fun _ => .bind within_read fun _ => rpc_aloof trivial

theorem readInventory_aloof : Aloof readInventory := by
  refine .bind within_read fun g => ?_
  split
  · exact within_pure _
  · exact within_fail _

theorem close_aloof (menu : String) : Aloof (close menu) := by
  refine .orCatch (rpc_aloof trivial) fun error => ?_
  split
  · exact within_pure ()
  · exact within_fail _

theorem ofCall_aloof {c : SessionCall} (h : c.Plain) : Aloof (ofCall c) := by
  cases c with
  | nativeSellPause => exact h.elim
  | renewSellLease => exact renewSellLeaseAside_aloof
  | respawn => exact rpc_aloof trivial
  | game c =>
      cases c with
      | held | recoveringHome => exact h.elim
      | sneak => exact sneak_aloof
      | chat => exact .bind (rpc_aloof trivial) fun _ => completed_aloof _ _
      | inventory => exact readInventory_aloof
      | click | transferAll => exact .bind (rpc_aloof trivial) fun _ => completed_aloof _ _
      | close => exact close_aloof _
      | openSpawner => exact rpc_aloof trivial
      | suspendSell => exact suspendSell_aloof _
      | rememberHome => exact .bind within_read fun _ => rpc_aloof trivial

end Gateway

/-! ### Behaviors inside the session -/

namespace Session

/-- The variables of a session that only its own code and its events change. -/
structure Frame where
  gate : Behaviors.Gate
  queued : List SessionCommand
  busy : Bool

def frame (s : SessionVars) : Frame := ⟨Behaviors.gate s.behaviors, s.queued, s.busy⟩

theorem behaving_aloof {α : Type} {t : Behaviors.Code α} (h : Behaviors.Aloof t) :
    (behaving t).Within frame SessionCall.Plain :=
  h.embed (fun s b hb => by simp [frame, hb]) fun _ hc => hc

/-! Code of the behaviors is embedded part by part. -/

theorem behaving_bind {α β : Type} (t : Behaviors.Code α) (f : α → Behaviors.Code β) :
    behaving (t >>= f) = behaving t >>= fun a => behaving (f a) := embed_bind t f

theorem behaving_orCatch {α : Type} (t : Behaviors.Code α) (handler : Failure → Behaviors.Code α) :
    behaving (t.orCatch handler) = (behaving t).orCatch fun e => behaving (handler e) :=
  embed_orCatch t handler

theorem keeps_behaving_await {K : Contract SessionVars SessionCall SessionCall.Reply Failure}
    {start s} (c : GameCall)
    {Q : Start SessionVars SessionCall SessionCall.Reply Failure → Except Failure c.Reply →
      SessionVars → Prop}
    (hcall : K.call start (.game c) s)
    (hback : ∀ (a : Except Failure c.Reply) s', K.back (.game c) a s' → Q ⟨s', some ⟨.game c, a⟩⟩ a s') :
    (behaving (Behaviors.await c)).Keeps K Q start s := by
  refine keeps_embed_perform.mpr ⟨hcall, fun a s' hb => ?_⟩
  have ha := hback a s' hb
  cases a <;> exact ha

theorem behaving_when (condition : Bool) (t : Behaviors.Code Unit) :
    behaving (.when condition t) = .when condition (behaving t) := embed_when condition t

end Session

end AfkClient

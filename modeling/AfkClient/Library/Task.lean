import Mathlib.Data.List.Basic

/-! Code of a single-threaded event loop. A task reads and changes the shared
variables without interruption and pauses only in calls; while it is paused, other
tasks run, so a state it read before a call says nothing about the one after it. -/

namespace AfkClient

/-- Tasks over the variables `σ` that make calls `c : κ`, answered by `ρ c`. -/
inductive Task (σ κ : Type) (ρ : κ → Type) (ε α : Type) : Type where
  | done (value : α)
  | fail (error : ε)
  | get (next : σ → Task σ κ ρ ε α)
  | modify (f : σ → σ) (next : Task σ κ ρ ε α)
  | call (c : κ) (next : Except ε (ρ c) → Task σ κ ρ ε α)

namespace Task

variable {σ τ κ μ : Type} {ρ : κ → Type} {ν : μ → Type} {ε α β : Type}

protected def bind : Task σ κ ρ ε α → (α → Task σ κ ρ ε β) → Task σ κ ρ ε β
  | done a, f => f a
  | fail e, _ => .fail e
  | get next, f => .get fun s => (next s).bind f
  | modify g t, f => .modify g (t.bind f)
  | call c next, f => .call c fun answer => (next answer).bind f

instance : Monad (Task σ κ ρ ε) where
  pure := .done
  bind := Task.bind

/-- `try { t } catch (error) { handler }` -/
def orCatch (handler : ε → Task σ κ ρ ε α) : Task σ κ ρ ε α → Task σ κ ρ ε α
  | done a => .done a
  | fail e => handler e
  | get next => .get fun s => (next s).orCatch handler
  | modify f t => .modify f (t.orCatch handler)
  | call c next => .call c fun answer => (next answer).orCatch handler

/-- The current variables. -/
def read : Task σ κ ρ ε σ := .get .done

def update (f : σ → σ) : Task σ κ ρ ε Unit := .modify f (.done ())

/-- Makes a call and awaits its answer. -/
def perform (c : κ) : Task σ κ ρ ε (ρ c) := .call c fun
  | .ok value => .done value
  | .error error => .fail error

/-- `if (condition) { t }` -/
def when (condition : Bool) (t : Task σ κ ρ ε Unit) : Task σ κ ρ ε Unit :=
  if condition then t else .done ()

/-- A task over a part of the variables, its calls embedded into a larger set of calls. -/
def embed (view : τ → σ) (put : σ → τ → τ) (c' : κ → μ) (back : ∀ c, ν (c' c) → ρ c) :
    Task σ κ ρ ε α → Task τ μ ν ε α
  | done a => .done a
  | fail e => .fail e
  | get next => .get fun t => (next (view t)).embed view put c' back
  | modify f t => .modify (fun s => put (f (view s)) s) (t.embed view put c' back)
  | call c next => .call (c' c) fun answer => (next (answer.map (back c))).embed view put c' back

/-- Where a task stands after it ran up to its next call or its end. -/
inductive Paused (σ κ : Type) (ρ : κ → Type) (ε α : Type) where
  | ended (result : Except ε α)
  | calling (c : κ) (next : Except ε (ρ c) → Task σ κ ρ ε α)

/-- Runs a task up to its next call or its end. -/
def advance : Task σ κ ρ ε α → σ → σ × Paused σ κ ρ ε α
  | done a, s => (s, .ended (.ok a))
  | fail e, s => (s, .ended (.error e))
  | get next, s => (next s).advance s
  | modify f t, s => t.advance (f s)
  | call c next, s => (s, .calling c next)

/-- Runs a task whose calls are all answered at once. -/
def finish (answers : (c : κ) → Except ε (ρ c)) : Task σ κ ρ ε α → σ → σ × Except ε α
  | done a, s => (s, .ok a)
  | fail e, s => (s, .error e)
  | get next, s => (next s).finish answers s
  | modify f t, s => t.finish answers (f s)
  | call c next, s => (next (answers c)).finish answers s

protected theorem bind_assoc (t : Task σ κ ρ ε α) (f : α → Task σ κ ρ ε β) {γ : Type}
    (g : β → Task σ κ ρ ε γ) : t >>= f >>= g = t >>= fun a => f a >>= g := by
  change (t.bind f).bind g = t.bind fun a => (f a).bind g
  induction t with
  | done a => rfl
  | fail e => rfl
  | get next ih => exact congrArg get (funext ih)
  | modify h t ih => exact congrArg (modify h) ih
  | call c next ih => exact congrArg (call c) (funext ih)

theorem advance_bind (t : Task σ κ ρ ε α) (f : α → Task σ κ ρ ε β) (s : σ) :
    (t >>= f).advance s =
      match t.advance s with
      | (s', .ended (.ok a)) => (f a).advance s'
      | (s', .ended (.error e)) => (s', .ended (.error e))
      | (s', .calling c next) => (s', .calling c fun answer => next answer >>= f) := by
  change (t.bind f).advance s = _
  induction t generalizing s with
  | done a => rfl
  | fail e => rfl
  | get next ih => exact ih s s
  | modify g t ih => exact ih (g s)
  | call c next => rfl

section Finish

variable {answers : (c : κ) → Except ε (ρ c)} {s s' : σ} {a : α}

theorem finish_bind (t : Task σ κ ρ ε α) (f : α → Task σ κ ρ ε β) (s : σ) :
    (t >>= f).finish answers s =
      match t.finish answers s with
      | (s', .ok a) => (f a).finish answers s'
      | (s', .error e) => (s', .error e) := by
  change (t.bind f).finish answers s = _
  induction t generalizing s with
  | done a => rfl
  | fail e => rfl
  | get next ih => exact ih s s
  | modify g t ih => exact ih (g s)
  | call c next ih => exact ih (answers c) s

/-- Both parts of a sequence that succeeds have succeeded. -/
theorem finish_bind_ok {t : Task σ κ ρ ε α} {f : α → Task σ κ ρ ε β} {b : β}
    (h : (t >>= f).finish answers s = (s', .ok b)) : ∃ s₁ a,
      t.finish answers s = (s₁, .ok a) ∧ (f a).finish answers s₁ = (s', .ok b) := by
  rw [finish_bind] at h
  split at h
  · rename_i s₁ a ht
    exact ⟨s₁, a, ht, h⟩
  · cases h

end Finish

/-! ### Frames -/

/-- Every change the task makes keeps `V`, and every call it makes is in `C`. -/
def Within (V : σ → β) (C : κ → Prop) : Task σ κ ρ ε α → Prop
  | done _ => True
  | fail _ => True
  | get next => ∀ s, (next s).Within V C
  | modify f t => (∀ s, V (f s) = V s) ∧ t.Within V C
  | call c next => C c ∧ ∀ answer, (next answer).Within V C

section Frames

variable {γ : Type} {V : σ → γ} {C : κ → Prop}

@[simp] theorem within_pure (a : α) : (pure a : Task σ κ ρ ε α).Within V C := trivial

@[simp] theorem within_done (a : α) : (done a : Task σ κ ρ ε α).Within V C := trivial

@[simp] theorem within_fail (e : ε) : (fail e : Task σ κ ρ ε α).Within V C := trivial

@[simp] theorem within_read : (read : Task σ κ ρ ε σ).Within V C := fun _ => trivial

@[simp] theorem within_update {f : σ → σ} :
    (update f : Task σ κ ρ ε Unit).Within V C ↔ ∀ s, V (f s) = V s := by
  simp [update, Within]

@[simp] theorem within_perform {c : κ} : (perform c : Task σ κ ρ ε (ρ c)).Within V C ↔ C c := by
  constructor
  · exact fun h => h.1
  · intro h
    refine ⟨h, fun answer => ?_⟩
    cases answer <;> trivial

theorem Within.bind {t : Task σ κ ρ ε α} {f : α → Task σ κ ρ ε β} (ht : t.Within V C)
    (hf : ∀ a, (f a).Within V C) : (t >>= f).Within V C := by
  change (t.bind f).Within V C
  induction t with
  | done a => exact hf a
  | fail e => trivial
  | get next ih => exact fun s => ih s (ht s)
  | modify g t ih => exact ⟨ht.1, ih ht.2⟩
  | call c next ih => exact ⟨ht.1, fun answer => ih answer (ht.2 answer)⟩

theorem Within.orCatch {t : Task σ κ ρ ε α} {handler : ε → Task σ κ ρ ε α} (ht : t.Within V C)
    (hh : ∀ e, (handler e).Within V C) : (t.orCatch handler).Within V C := by
  induction t with
  | done a => trivial
  | fail e => exact hh e
  | get next ih => exact fun s => ih s (ht s)
  | modify g t ih => exact ⟨ht.1, ih ht.2⟩
  | call c next ih => exact ⟨ht.1, fun answer => ih answer (ht.2 answer)⟩

theorem Within.mono {δ : Type} {W : σ → δ} {D : κ → Prop} {t : Task σ κ ρ ε α}
    (ht : t.Within V C) (hV : ∀ s s', V s = V s' → W s = W s') (hC : ∀ c, C c → D c) :
    t.Within W D := by
  induction t with
  | done a => trivial
  | fail e => trivial
  | get next ih => exact fun s => ih s (ht s)
  | modify f t ih => exact ⟨fun s => hV _ _ (ht.1 s), ih ht.2⟩
  | call c next ih => exact ⟨hC c ht.1, fun answer => ih answer (ht.2 answer)⟩

theorem Within.embed {δ : Type} {W : τ → δ} {D : μ → Prop} {view : τ → σ} {put : σ → τ → τ}
    {c' : κ → μ} {back : ∀ c, ν (c' c) → ρ c} {t : Task σ κ ρ ε α} (ht : t.Within V C)
    (hW : ∀ s b, V b = V (view s) → W (put b s) = W s) (hC : ∀ c, C c → D (c' c)) :
    (t.embed view put c' back).Within W D := by
  induction t with
  | done a => trivial
  | fail e => trivial
  | get next ih => exact fun s => ih (view s) (ht (view s))
  | modify f t ih => exact ⟨fun s => hW s _ (ht.1 (view s)), ih ht.2⟩
  | call c next ih => exact ⟨hC c ht.1, fun answer => ih _ (ht.2 _)⟩

theorem Within.when {t : Task σ κ ρ ε Unit} (condition : Bool) (ht : t.Within V C) :
    (Task.when condition t).Within V C := by
  cases condition with
  | false => trivial
  | true => exact ht

/-- Up to its next call a task stays within its frame, and behind the call it goes on so. -/
theorem Within.advance {t : Task σ κ ρ ε α} (ht : t.Within V C) (s : σ) :
    V (t.advance s).1 = V s ∧ ∀ c next, (t.advance s).2 = .calling c next →
      C c ∧ ∀ answer, (next answer).Within V C := by
  induction t generalizing s with
  | done a => exact ⟨rfl, nofun⟩
  | fail e => exact ⟨rfl, nofun⟩
  | get next ih => exact ih s (ht s) s
  | modify f t ih =>
      obtain ⟨hv, hnext⟩ := ih ht.2 (f s)
      exact ⟨hv.trans (ht.1 s), hnext⟩
  | call c next =>
      refine ⟨rfl, fun c' next' heq => ?_⟩
      cases heq
      exact ht

theorem Within.finish {t : Task σ κ ρ ε α} (ht : t.Within V C)
    (answers : (c : κ) → Except ε (ρ c)) (s : σ) : V (t.finish answers s).1 = V s := by
  induction t generalizing s with
  | done a => rfl
  | fail e => rfl
  | get next ih => exact ih s (ht s) s
  | modify f t ih => exact (ih ht.2 (f s)).trans (ht.1 s)
  | call c next ih => exact ih (answers c) (ht.2 (answers c)) s

end Frames

/-! ### Protocols -/

/-- What tasks promise, and what they rely on. `γ` is what is known of the segment without
pauses that a call ends: `call` says which calls it may make, `back` what the variables
look like when the answer is there, and `next` what is known then. -/
structure Protocol (σ κ : Type) (ρ : κ → Type) (ε γ : Type) where
  call : γ → κ → σ → Prop
  back : γ → (c : κ) → σ → Except ε (ρ c) → σ → Prop
  next : γ → (c : κ) → σ → Except ε (ρ c) → σ → γ

/-- From a state of a segment on, the task follows the protocol, and ends as `Q` says. -/
def Follows {γ : Type} (P : Protocol σ κ ρ ε γ) (Q : γ → Except ε α → σ → Prop) :
    Task σ κ ρ ε α → γ → σ → Prop
  | done a, g, s => Q g (.ok a) s
  | fail e, g, s => Q g (.error e) s
  | get next, g, s => (next s).Follows P Q g s
  | modify f t, g, s => t.Follows P Q g (f s)
  | call c next, g, s =>
      P.call g c s ∧ ∀ a s', P.back g c s a s' → (next a).Follows P Q (P.next g c s a s') s'

section Protocols

variable {γ : Type} {P : Protocol σ κ ρ ε γ} {Q R : γ → Except ε α → σ → Prop}
  {O : γ → Except ε β → σ → Prop} {g : γ} {s : σ}

@[simp] theorem follows_pure (a : α) :
    (pure a : Task σ κ ρ ε α).Follows P Q g s ↔ Q g (.ok a) s := Iff.rfl

@[simp] theorem follows_fail (e : ε) :
    (fail e : Task σ κ ρ ε α).Follows P Q g s ↔ Q g (.error e) s := Iff.rfl

@[simp] theorem follows_read {Q : γ → Except ε σ → σ → Prop} :
    (read : Task σ κ ρ ε σ).Follows P Q g s ↔ Q g (.ok s) s := Iff.rfl

@[simp] theorem follows_update {Q : γ → Except ε Unit → σ → Prop} {f : σ → σ} :
    (update f : Task σ κ ρ ε Unit).Follows P Q g s ↔ Q g (.ok ()) (f s) := Iff.rfl

theorem follows_perform {c : κ} {Q : γ → Except ε (ρ c) → σ → Prop} :
    (perform c : Task σ κ ρ ε (ρ c)).Follows P Q g s ↔
      P.call g c s ∧ ∀ a s', P.back g c s a s' → Q (P.next g c s a s') a s' := by
  apply and_congr_right
  intro _
  apply forall_congr'
  intro a
  cases a <;> rfl

theorem follows_when {Q : γ → Except ε Unit → σ → Prop} {condition : Bool}
    {t : Task σ κ ρ ε Unit} : (when condition t).Follows P Q g s ↔
      if condition then t.Follows P Q g s else Q g (.ok ()) s := by
  cases condition <;> rfl

theorem Follows.mono {t : Task σ κ ρ ε α} (h : t.Follows P Q g s)
    (hQR : ∀ g r s, Q g r s → R g r s) : t.Follows P R g s := by
  induction t generalizing g s with
  | done a => exact hQR _ _ _ h
  | fail e => exact hQR _ _ _ h
  | get next ih => exact ih s h
  | modify f t ih => exact ih h
  | call c next ih => exact ⟨h.1, fun a s' hb => ih a (h.2 a s' hb)⟩

theorem follows_bind {t : Task σ κ ρ ε α} {f : α → Task σ κ ρ ε β} :
    (t >>= f).Follows P O g s ↔
      t.Follows P (fun g r s =>
        match r with
        | .ok a => (f a).Follows P O g s
        | .error e => O g (.error e) s) g s := by
  change (t.bind f).Follows P O g s ↔ _
  induction t generalizing g s with
  | done a => rfl
  | fail e => rfl
  | get next ih => exact ih s
  | modify f t ih => exact ih
  | call c next ih =>
      refine and_congr_right fun _ => forall_congr' fun a => forall_congr' fun s' => ?_
      exact imp_congr_right fun _ => ih a

theorem follows_read_bind {f : σ → Task σ κ ρ ε β} :
    (read >>= f).Follows P O g s ↔ (f s).Follows P O g s := Iff.rfl

theorem follows_update_bind {u : σ → σ} {f : Unit → Task σ κ ρ ε β} :
    (update u >>= f).Follows P O g s ↔ (f ()).Follows P O g (u s) := Iff.rfl

theorem Follows.bind {t : Task σ κ ρ ε α} {f : α → Task σ κ ρ ε β} (ht : t.Follows P Q g s)
    (hf : ∀ g a s, Q g (.ok a) s → (f a).Follows P O g s)
    (he : ∀ g e s, Q g (.error e) s → O g (.error e) s) : (t >>= f).Follows P O g s := by
  refine follows_bind.mpr (ht.mono fun g r s hq => ?_)
  cases r with
  | ok a => exact hf g a s hq
  | error e => exact he g e s hq

theorem follows_orCatch {t : Task σ κ ρ ε α} {handler : ε → Task σ κ ρ ε α} :
    (t.orCatch handler).Follows P Q g s ↔
      t.Follows P (fun g r s =>
        match r with
        | .ok a => Q g (.ok a) s
        | .error e => (handler e).Follows P Q g s) g s := by
  induction t generalizing g s with
  | done a => rfl
  | fail e => rfl
  | get next ih => exact ih s
  | modify f t ih => exact ih
  | call c next ih =>
      refine and_congr_right fun _ => forall_congr' fun a => forall_congr' fun s' => ?_
      exact imp_congr_right fun _ => ih a

theorem Follows.orCatch {t : Task σ κ ρ ε α} {handler : ε → Task σ κ ρ ε α}
    (ht : t.Follows P Q g s) (hv : ∀ g a s, Q g (.ok a) s → R g (.ok a) s)
    (he : ∀ g e s, Q g (.error e) s → (handler e).Follows P R g s) :
    (t.orCatch handler).Follows P R g s := by
  refine follows_orCatch.mpr (ht.mono fun g r s hq => ?_)
  cases r with
  | ok a => exact hv g a s hq
  | error e => exact he g e s hq

/-- A task within a frame follows a protocol under an invariant of the frame, if the
protocol permits its calls and their answers restore the invariant. -/
theorem Within.follows {δ : Type} {V : σ → δ} {C : κ → Prop} {t : Task σ κ ρ ε α}
    (ht : t.Within V C) {I : γ → σ → Prop} (hI : ∀ g s s', V s' = V s → I g s → I g s')
    (hcall : ∀ g c s, C c → I g s →
      P.call g c s ∧ ∀ a s', P.back g c s a s' → I (P.next g c s a s') s')
    (h : I g s) : t.Follows P (fun g _ s => I g s) g s := by
  induction t generalizing g s with
  | done a => exact h
  | fail e => exact h
  | get next ih => exact ih s (ht s) h
  | modify f t ih => exact ih ht.2 (hI g s (f s) (ht.1 s) h)
  | call c next ih =>
      obtain ⟨hc, hback⟩ := hcall g c s ht.1 h
      exact ⟨hc, fun a s' hb => ih a (ht.2 a) (hback a s' hb)⟩

/-- What a task does up to its next call or its end. -/
def Paused.Follows (P : Protocol σ κ ρ ε γ) (Q : γ → Except ε α → σ → Prop) (g : γ) (s : σ) :
    Paused σ κ ρ ε α → Prop
  | .ended r => Q g r s
  | .calling c next =>
      P.call g c s ∧ ∀ a s', P.back g c s a s' → (next a).Follows P Q (P.next g c s a s') s'

theorem Follows.advance {t : Task σ κ ρ ε α} (h : t.Follows P Q g s) :
    (t.advance s).2.Follows P Q g (t.advance s).1 := by
  induction t generalizing g s with
  | done a => exact h
  | fail e => exact h
  | get next ih => exact ih s h
  | modify f t ih => exact ih h
  | call c next => exact h

end Protocols

/-! ### Contracts -/

/-- How a segment of a task began: in which state, and with which answer. -/
structure Start (σ κ : Type) (ρ : κ → Type) (ε : Type) where
  state : σ
  answer : Option ((c : κ) × Except ε (ρ c)) := none

namespace Start

variable (start : Start σ κ ρ ε)

/-- The call the segment began behind. -/
def asked : Option κ := start.answer.map Sigma.fst

/-- The segment began with the value of a call. -/
def accepted : Bool := start.answer.any fun a => a.2.isOk

/-- The segment began with the error of a call. -/
def refused : Bool := start.answer.any fun a => !a.2.isOk

theorem refused_of_accepted {start : Start σ κ ρ ε} (h : start.accepted = true) :
    start.refused = false := by
  revert h
  unfold accepted refused
  cases start.answer with
  | none => simp
  | some a => simp

end Start

/-- A protocol that knows how the segment of a call began: `call` relates the call to it and
to the state it is made in, and `back` to the answer and to the state it is resumed in. -/
structure Contract (σ κ : Type) (ρ : κ → Type) (ε : Type) where
  call : Start σ κ ρ ε → κ → σ → Prop
  back : (c : κ) → Except ε (ρ c) → σ → Prop

def Contract.protocol (K : Contract σ κ ρ ε) : Protocol σ κ ρ ε (Start σ κ ρ ε) where
  call := K.call
  back _ c _ a s' := K.back c a s'
  next _ c _ a s' := ⟨s', some ⟨c, a⟩⟩

/-- From a state of a segment on, the task keeps the contract, and ends as `Q` says. -/
def Keeps (K : Contract σ κ ρ ε) (Q : Start σ κ ρ ε → Except ε α → σ → Prop)
    (t : Task σ κ ρ ε α) (start : Start σ κ ρ ε) (s : σ) : Prop :=
  t.Follows K.protocol Q start s

section Contracts

variable {K : Contract σ κ ρ ε} {Q R : Start σ κ ρ ε → Except ε α → σ → Prop}
  {P : Start σ κ ρ ε → Except ε β → σ → Prop} {start : Start σ κ ρ ε} {s : σ}

@[simp] theorem keeps_pure (a : α) :
    (pure a : Task σ κ ρ ε α).Keeps K Q start s ↔ Q start (.ok a) s := Iff.rfl

@[simp] theorem keeps_fail (e : ε) :
    (fail e : Task σ κ ρ ε α).Keeps K Q start s ↔ Q start (.error e) s := Iff.rfl

@[simp] theorem keeps_read {Q : Start σ κ ρ ε → Except ε σ → σ → Prop} :
    (read : Task σ κ ρ ε σ).Keeps K Q start s ↔ Q start (.ok s) s := Iff.rfl

@[simp] theorem keeps_update {Q : Start σ κ ρ ε → Except ε Unit → σ → Prop} {f : σ → σ} :
    (update f : Task σ κ ρ ε Unit).Keeps K Q start s ↔ Q start (.ok ()) (f s) := Iff.rfl

theorem keeps_perform {c : κ} {Q : Start σ κ ρ ε → Except ε (ρ c) → σ → Prop} :
    (perform c : Task σ κ ρ ε (ρ c)).Keeps K Q start s ↔
      K.call start c s ∧
        ∀ answer s', K.back c answer s' → Q ⟨s', some ⟨c, answer⟩⟩ answer s' :=
  follows_perform

theorem keeps_when {Q : Start σ κ ρ ε → Except ε Unit → σ → Prop} {condition : Bool}
    {t : Task σ κ ρ ε Unit} : (when condition t).Keeps K Q start s ↔
      if condition then t.Keeps K Q start s else Q start (.ok ()) s := follows_when

theorem Keeps.mono {t : Task σ κ ρ ε α} (h : t.Keeps K Q start s)
    (hQR : ∀ start r s, Q start r s → R start r s) : t.Keeps K R start s := Follows.mono h hQR

theorem keeps_bind {t : Task σ κ ρ ε α} {f : α → Task σ κ ρ ε β} :
    (t >>= f).Keeps K P start s ↔
      t.Keeps K (fun start r s =>
        match r with
        | .ok a => (f a).Keeps K P start s
        | .error e => P start (.error e) s) start s := follows_bind

theorem keeps_orCatch {t : Task σ κ ρ ε α} {handler : ε → Task σ κ ρ ε α} :
    (t.orCatch handler).Keeps K Q start s ↔
      t.Keeps K (fun start r s =>
        match r with
        | .ok a => Q start (.ok a) s
        | .error e => (handler e).Keeps K Q start s) start s := follows_orCatch

/-- A task within a frame keeps a contract that permits the calls of the frame in every
state that looks like the one the segment has reached. -/
theorem Within.keeps {γ : Type} {V : σ → γ} {C : κ → Prop} {t : Task σ κ ρ ε α}
    (ht : t.Within V C) (hcall : ∀ c s', C c → V s' = V s → K.call start c s')
    (hQ : ∀ r s', V s' = V s → Q start r s')
    (hlater : ∀ s₀ c₀ a c s', C c₀ → C c → V s' = V s₀ → K.call ⟨s₀, some ⟨c₀, a⟩⟩ c s')
    (hlast : ∀ s₀ c₀ a r s', C c₀ → V s' = V s₀ → Q ⟨s₀, some ⟨c₀, a⟩⟩ r s') :
    t.Keeps K Q start s := by
  induction t generalizing start s with
  | done a => exact hQ _ _ rfl
  | fail e => exact hQ _ _ rfl
  | get next ih => exact ih s (ht s) hcall hQ
  | modify f t ih =>
      refine ih ht.2 ?_ ?_
      · exact fun c s' hc hv => hcall c s' hc (hv.trans (ht.1 s))
      · exact fun r s' hv => hQ r s' (hv.trans (ht.1 s))
  | call c next ih =>
      refine ⟨hcall c s ht.1 rfl, fun answer s' _ => ih answer (ht.2 answer) ?_ ?_⟩
      · exact fun c' s'' hc hv => hlater s' c answer c' s'' ht.1 hc hv
      · exact fun r s'' hv => hlast s' c answer r s'' ht.1 hv

/-- What a task does up to its next call or its end. -/
def Paused.Keeps (K : Contract σ κ ρ ε) (Q : Start σ κ ρ ε → Except ε α → σ → Prop)
    (start : Start σ κ ρ ε) (s : σ) (p : Paused σ κ ρ ε α) : Prop :=
  p.Follows K.protocol Q start s

theorem Keeps.advance {t : Task σ κ ρ ε α} (h : t.Keeps K Q start s) :
    (t.advance s).2.Keeps K Q start (t.advance s).1 := Follows.advance h

/-! Code embedded into a larger program keeps its shape. -/

variable {view : τ → σ} {put : σ → τ → τ} {c' : κ → μ} {back : ∀ c, ν (c' c) → ρ c}

theorem embed_bind (t : Task σ κ ρ ε α) (f : α → Task σ κ ρ ε β) :
    (t >>= f).embed view put c' back =
      t.embed view put c' back >>= fun a => (f a).embed view put c' back := by
  change (t.bind f).embed view put c' back = (t.embed view put c' back).bind _
  induction t with
  | done a => rfl
  | fail e => rfl
  | get next ih => exact congrArg get (funext fun s => ih (view s))
  | modify g t ih => exact congrArg (modify _) ih
  | call c next ih => exact congrArg (call _) (funext fun answer => ih _)

theorem embed_orCatch (t : Task σ κ ρ ε α) (handler : ε → Task σ κ ρ ε α) :
    (t.orCatch handler).embed view put c' back =
      (t.embed view put c' back).orCatch fun e => (handler e).embed view put c' back := by
  induction t with
  | done a => rfl
  | fail e => rfl
  | get next ih => exact congrArg get (funext fun s => ih (view s))
  | modify g t ih => exact congrArg (modify _) ih
  | call c next ih => exact congrArg (call _) (funext fun answer => ih _)

theorem embed_when (condition : Bool) (t : Task σ κ ρ ε Unit) :
    (when condition t).embed view put c' back = when condition (t.embed view put c' back) := by
  cases condition <;> rfl

@[simp] theorem keeps_embed_pure {K : Contract τ μ ν ε} {Q : Start τ μ ν ε → Except ε α → τ → Prop}
    {start : Start τ μ ν ε} {s : τ} (a : α) :
    ((pure a : Task σ κ ρ ε α).embed view put c' back).Keeps K Q start s ↔ Q start (.ok a) s := Iff.rfl

@[simp] theorem keeps_embed_read {K : Contract τ μ ν ε} {Q : Start τ μ ν ε → Except ε σ → τ → Prop}
    {start : Start τ μ ν ε} {s : τ} :
    ((read : Task σ κ ρ ε σ).embed view put c' back).Keeps K Q start s ↔
      Q start (.ok (view s)) s := Iff.rfl

@[simp] theorem keeps_embed_update {K : Contract τ μ ν ε}
    {Q : Start τ μ ν ε → Except ε Unit → τ → Prop} {start : Start τ μ ν ε} {s : τ} {f : σ → σ} :
    ((update f : Task σ κ ρ ε Unit).embed view put c' back).Keeps K Q start s ↔
      Q start (.ok ()) (put (f (view s)) s) := Iff.rfl

theorem keeps_embed_perform {K : Contract τ μ ν ε} {c : κ}
    {Q : Start τ μ ν ε → Except ε (ρ c) → τ → Prop} {start : Start τ μ ν ε} {s : τ} :
    ((perform c : Task σ κ ρ ε (ρ c)).embed view put c' back).Keeps K Q start s ↔
      K.call start (c' c) s ∧ ∀ answer s', K.back (c' c) answer s' →
        Q ⟨s', some ⟨c' c, answer⟩⟩ (answer.map (back c)) s' := by
  apply and_congr_right
  intro _
  apply forall_congr'
  intro answer
  cases answer <;> rfl

end Contracts

end Task

end AfkClient

import Mathlib.Data.List.Basic

/-! Methods that change the fields of an object and may throw. What a method changed
before it threw stays changed, so a contract has a condition for each of its two ends. -/

namespace AfkClient

/-- A method of an object with fields `σ` that throws an `ε` or returns an `α`. -/
abbrev Method (ε σ α : Type) := EStateM ε σ α

namespace Method

variable {ε σ α β : Type} {Q Q' : α → σ → Prop} {E E' : ε → σ → Prop} {s : σ}

/-- `if (c) { m }` -/
def when (c : Prop) [Decidable c] (m : Method ε σ Unit) : Method ε σ Unit :=
  if c then m else pure ()

/-- Called in `s`, the method returns with `Q` or throws with `E`. -/
def wp (m : Method ε σ α) (Q : α → σ → Prop) (E : ε → σ → Prop) (s : σ) : Prop :=
  match m.run s with
  | .ok a s' => Q a s'
  | .error e s' => E e s'

@[simp] theorem wp_pure (a : α) : wp (pure a : Method ε σ α) Q E s ↔ Q a s := Iff.rfl

@[simp] theorem wp_throw (e : ε) : wp (throw e : Method ε σ α) Q E s ↔ E e s := Iff.rfl

@[simp] theorem wp_get {Q : σ → σ → Prop} : wp (get : Method ε σ σ) Q E s ↔ Q s s := Iff.rfl

@[simp] theorem wp_modify {Q : Unit → σ → Prop} (f : σ → σ) :
    wp (modify f : Method ε σ Unit) Q E s ↔ Q () (f s) := Iff.rfl

@[simp] theorem wp_bind (m : Method ε σ β) (f : β → Method ε σ α) :
    wp (m >>= f) Q E s ↔ wp m (fun b => wp (f b) Q E) E s := by
  change (match EStateM.bind m f s with | .ok a s' => Q a s' | .error e s' => E e s') ↔ _
  unfold EStateM.bind wp EStateM.run
  cases m s <;> rfl

@[simp] theorem wp_map (m : Method ε σ β) (f : β → α) :
    wp (f <$> m) Q E s ↔ wp m (fun b => Q (f b)) E s := by
  change (match EStateM.map f m s with | .ok a s' => Q a s' | .error e s' => E e s') ↔ _
  unfold EStateM.map wp EStateM.run
  cases m s <;> rfl

theorem wp_ite {c : Prop} [Decidable c] {m n : Method ε σ α} :
    wp (if c then m else n) Q E s ↔ (c → wp m Q E s) ∧ (¬ c → wp n Q E s) := by
  by_cases hc : c <;> simp [hc]

theorem wp.mono {m : Method ε σ α} (h : wp m Q E s) (hQ : ∀ a s, Q a s → Q' a s)
    (hE : ∀ e s, E e s → E' e s) : wp m Q' E' s := by
  unfold wp at h ⊢
  cases hm : m.run s with
  | ok a s' => exact hQ a s' (by simpa [hm] using h)
  | error e s' => exact hE e s' (by simpa [hm] using h)

theorem wp.and {m : Method ε σ α} (h : wp m Q E s) (h' : wp m Q' E' s) :
    wp m (fun a s => Q a s ∧ Q' a s) (fun e s => E e s ∧ E' e s) s := by
  unfold wp at h h' ⊢
  cases hm : m.run s with
  | ok a s' => exact ⟨by simpa [hm] using h, by simpa [hm] using h'⟩
  | error e s' => exact ⟨by simpa [hm] using h, by simpa [hm] using h'⟩

/-- A contract may speak of the run itself. -/
theorem wp.run {m : Method ε σ α} (h : wp m Q E s) :
    wp m (fun a s' => m.run s = .ok a s' ∧ Q a s') (fun e s' => m.run s = .error e s' ∧ E e s') s := by
  unfold wp at h ⊢
  cases hm : m.run s with
  | ok a s' => exact ⟨rfl, by simpa [hm] using h⟩
  | error e s' => exact ⟨rfl, by simpa [hm] using h⟩

/-- A method called after another one whose contract is known. -/
theorem wp.bind {m : Method ε σ β} {f : β → Method ε σ α} {R : β → σ → Prop} {F : ε → σ → Prop}
    (h : wp m R F s) (hf : ∀ b s, R b s → wp (f b) Q E s) (hE : ∀ e s, F e s → E e s) :
    wp (m >>= f) Q E s :=
  wp_bind m f |>.mpr (h.mono hf hE)

/-- Whether the method throws, and its fields after that. -/
def outcome (m : Method ε σ α) (s : σ) : σ × Option ε :=
  match m.run s with
  | .ok _ s' => (s', none)
  | .error e s' => (s', some e)

theorem wp.outcome {m : Method ε σ α} {R : σ × Option ε → Prop}
    (h : wp m (fun _ s' => R (s', none)) (fun e s' => R (s', some e)) s) : R (m.outcome s) := by
  unfold wp at h
  unfold Method.outcome
  cases hm : m.run s with
  | ok a s' => simpa [hm] using h
  | error e s' => simpa [hm] using h

/-! ### What a method keeps wherever it ends -/

section Within

/-- Returning or throwing, the method leads to a related state. -/
def Within (R : σ → σ → Prop) (m : Method ε σ α) : Prop :=
  ∀ s, wp m (fun _ s' => R s s') (fun _ s' => R s s') s

variable {R : σ → σ → Prop} {m : Method ε σ β} {f : β → Method ε σ α}

theorem Within.pure (hrefl : ∀ s, R s s) (a : α) : Within R (Pure.pure a : Method ε σ α) :=
  fun s => (wp_pure a).mpr (hrefl s)

theorem Within.throw (hrefl : ∀ s, R s s) (e : ε) : Within R (MonadExcept.throw e : Method ε σ α) :=
  fun s => (wp_throw e).mpr (hrefl s)

theorem Within.bind (htrans : ∀ s s' s'', R s s' → R s' s'' → R s s'') (hm : Within R m)
    (hf : ∀ b, Within R (f b)) : Within R (m >>= f) := by
  refine fun s => (hm s).bind (fun b s' h => ?_) fun _ _ h => h
  exact (hf b s').mono (fun _ s'' h' => htrans s s' s'' h h') fun _ s'' h' => htrans s s' s'' h h'

/-- A method that reads its fields first. -/
theorem Within.get {g : σ → Method ε σ α} (hg : ∀ s, Within R (g s)) :
    Within R (MonadState.get >>= g) :=
  fun s => (wp_bind _ _).mpr (wp_get.mpr (hg s s))

theorem Within.ite {c : Prop} [Decidable c] {m n : Method ε σ α} (hm : Within R m) (hn : Within R n) :
    Within R (if c then m else n) :=
  fun s => wp_ite.mpr ⟨fun _ => hm s, fun _ => hn s⟩

theorem Within.when (hrefl : ∀ s, R s s) {c : Prop} [Decidable c] {m : Method ε σ Unit}
    (hm : Within R m) : Within R (Method.when c m) :=
  hm.ite (.pure hrefl ())

end Within

end Method

end AfkClient

import AfkClient.Library.Run

/-! A machine that writes what it does into a journal. If the journal tells the state, what holds
of every step holds of every entry at its place. -/

namespace AfkClient.Journal

/-- Where an entry stands in a journal that has grown by one. -/
theorem append_singleton_eq {ε : Type*} {es before after : List ε} {x e : ε}
    (h : es ++ [x] = before ++ e :: after) :
    (es = before ∧ x = e ∧ after = []) ∨ ∃ init, es = before ++ e :: init ∧ after = init ++ [x] := by
  rcases List.eq_nil_or_concat after with rfl | ⟨init, last, rfl⟩
  · obtain ⟨rfl, hlast⟩ := List.append_inj' h rfl
    exact .inl ⟨rfl, List.singleton_inj.mp hlast, rfl⟩
  · have hsplit : es ++ [x] = (before ++ e :: init) ++ [last] := by simpa using h
    obtain ⟨rfl, hlast⟩ := List.append_inj' hsplit rfl
    obtain rfl := List.singleton_inj.mp hlast
    exact .inr ⟨init, rfl, List.concat_eq_append⟩

/-! ### The last entry that counts -/

/-- An entry that sets, and none behind it that ends. -/
def Since {ε : Type*} (sets ends : ε → Prop) (es : List ε) : Prop :=
  ∃ before e after, es = before ++ e :: after ∧ sets e ∧ ∀ f ∈ after, ¬ends f

theorem since_append_singleton {ε : Type*} {sets ends : ε → Prop} {es : List ε} {e : ε} :
    Since sets ends (es ++ [e]) ↔ sets e ∨ Since sets ends es ∧ ¬ends e := by
  constructor
  · rintro ⟨before, f, after, heq, hf, hafter⟩
    rcases append_singleton_eq heq with ⟨rfl, rfl, rfl⟩ | ⟨init, rfl, rfl⟩
    · exact .inl hf
    · exact .inr ⟨⟨before, f, init, rfl, hf, fun g hg => hafter g (by simp [hg])⟩,
        hafter e (by simp)⟩
  · rintro (he | ⟨⟨before, f, after, rfl, hf, hafter⟩, he⟩)
    · exact ⟨es, e, [], rfl, he, by simp⟩
    · refine ⟨before, f, after ++ [e], by simp, hf, fun g hg => ?_⟩
      rcases List.mem_append.mp hg with hg | hg
      · exact hafter g hg
      · rwa [List.mem_singleton.mp hg]

/-- What a step switches on and off is on since the last entry that counts. -/
theorem run_since {σ ε : Type*} {step : σ → ε → σ} {on : σ → Prop} {sets ends : ε → Prop} {s : σ}
    (hstep : ∀ s e, on (step s e) ↔ sets e ∨ on s ∧ ¬ends e) (hs : ¬on s) (es : List ε) :
    on (AfkClient.run step s es) ↔ Since sets ends es := by
  induction es using List.reverseRecOn with
  | nil => exact ⟨fun h => absurd h hs, fun ⟨before, e, after, heq, _⟩ => by simp at heq⟩
  | append_singleton es e ih =>
      rw [run_append, run_cons, run_nil, hstep, since_append_singleton, ih]

variable {σ ε ι : Type*} {step : σ × List ε → ι → σ × List ε} {accept : σ → ε → σ}
  {P : σ → ε → Prop}

/-- A step does nothing, or does what its entry says. -/
def Keeps (step : σ × List ε → ι → σ × List ε) (accept : σ → ε → σ) (P : σ → ε → Prop) : Prop :=
  ∀ s i, step s i = s ∨ ∃ e, step s i = (accept s.1 e, s.2 ++ [e]) ∧ P s.1 e

/-- The state a journal tells. -/
def replay (accept : σ → ε → σ) (s : σ) (entries : List ε) : σ := entries.foldl accept s

@[simp] theorem replay_append (s : σ) (es fs : List ε) :
    replay accept s (es ++ fs) = replay accept (replay accept s es) fs := List.foldl_append

@[simp] theorem replay_cons (s : σ) (e : ε) (es : List ε) :
    replay accept s (e :: es) = replay accept (accept s e) es := rfl

@[simp] theorem replay_nil (s : σ) : replay accept s [] = s := rfl

/-- What one entry preserves, a journal does. -/
theorem replay_induction {I : σ → Prop} {s : σ} {es : List ε} (hs : I s)
    (hstep : ∀ s, ∀ e ∈ es, I s → I (accept s e)) : I (replay accept s es) := by
  induction es generalizing s with
  | nil => exact hs
  | cons e es ih =>
      exact ih (hstep s e (by simp) hs) fun s f hf => hstep s f (by simp [hf])

/-- The entries of a journal that starts in `s`, each in the state at its place. -/
def Legal (accept : σ → ε → σ) (P : σ → ε → Prop) (s : σ) (es : List ε) : Prop :=
  ∀ before e after, es = before ++ e :: after → P (replay accept s before) e

theorem Legal.append {s : σ} {es : List ε} {e : ε} (h : Legal accept P s es)
    (he : P (replay accept s es) e) : Legal accept P s (es ++ [e]) := by
  intro before f after heq
  rcases append_singleton_eq heq with ⟨rfl, rfl, -⟩ | ⟨init, hes, -⟩
  · exact he
  · exact h before f init hes

theorem Legal.init {s : σ} {es : List ε} {e : ε} (h : Legal accept P s (es ++ [e])) :
    Legal accept P s es ∧ P (replay accept s es) e :=
  ⟨fun before f after heq => h before f (after ++ [e]) (by simp [heq]), h es e [] rfl⟩

/-- Every run leaves a journal of legal entries that tells its state. -/
theorem Keeps.run (h : Keeps step accept P) (s : σ) (inputs : List ι) :
    (AfkClient.run step (s, []) inputs).1 =
        replay accept s (AfkClient.run step (s, []) inputs).2 ∧
      Legal accept P s (AfkClient.run step (s, []) inputs).2 := by
  induction inputs using List.reverseRecOn with
  | nil => exact ⟨rfl, fun before e after heq => by simp at heq⟩
  | append_singleton inputs i ih =>
      rw [run_append, run_cons, run_nil]
      obtain ⟨hstate, hlegal⟩ := ih
      rcases h (AfkClient.run step (s, []) inputs) i with hsame | ⟨e, hstep, he⟩
      · rw [hsame]
        exact ⟨hstate, hlegal⟩
      · rw [hstep]
        rw [hstate] at he ⊢
        exact ⟨by simp, hlegal.append he⟩

end AfkClient.Journal

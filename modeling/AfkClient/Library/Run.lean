import Mathlib.Data.List.Basic
import Mathlib.Data.List.Infix

/-! Runs of a deterministic machine over a list of inputs. Nondeterminism of an
environment is part of the input, so a statement about every input list is a
statement about every interleaving. -/

namespace AfkClient

section Run

variable {σ ι : Type*} (step : σ → ι → σ)

/-- The state after all inputs. -/
def run (s : σ) (inputs : List ι) : σ := inputs.foldl step s

@[simp] theorem run_nil (s : σ) : run step s [] = s := rfl

@[simp] theorem run_cons (s : σ) (i : ι) (is : List ι) :
    run step s (i :: is) = run step (step s i) is := rfl

@[simp] theorem run_append (s : σ) (is js : List ι) :
    run step s (is ++ js) = run step (run step s is) js := by
  simp [run]

/-- `P` holds in every state the run visits, the first and the last included. -/
def Along (P : σ → Prop) : σ → List ι → Prop
  | s, [] => P s
  | s, i :: is => P s ∧ Along P (step s i) is

/-- Every step of the run is taken in a state that satisfies `C` with its input. -/
def Meets (C : σ → ι → Prop) : σ → List ι → Prop
  | _, [] => True
  | s, i :: is => C s i ∧ Meets C (step s i) is

variable {step} {P Q : σ → Prop} {C D : σ → ι → Prop}

@[simp] theorem along_nil {s : σ} : Along step P s [] ↔ P s := Iff.rfl

@[simp] theorem along_cons {s : σ} {i : ι} {is : List ι} :
    Along step P s (i :: is) ↔ P s ∧ Along step P (step s i) is := Iff.rfl

@[simp] theorem meets_nil {s : σ} : Meets step C s [] := trivial

@[simp] theorem meets_cons {s : σ} {i : ι} {is : List ι} :
    Meets step C s (i :: is) ↔ C s i ∧ Meets step C (step s i) is := Iff.rfl

theorem meets_append {s : σ} {is js : List ι} :
    Meets step C s (is ++ js) ↔ Meets step C s is ∧ Meets step C (run step s is) js := by
  induction is generalizing s with
  | nil => simp
  | cons i is ih =>
      rw [List.cons_append, meets_cons, meets_cons, ih, and_assoc, run_cons]

section Image

variable {τ : Type*} {step' : τ → ι → τ} {f : σ → τ}

/-- A machine that is the image of another one. -/
theorem run_image (hf : ∀ s i, f (step s i) = step' (f s) i) (s : σ) (is : List ι) :
    f (run step s is) = run step' (f s) is := by
  induction is generalizing s with
  | nil => rfl
  | cons i is ih => rw [run_cons, run_cons, ih, hf]

theorem meets_image {C : τ → ι → Prop} (hf : ∀ s i, f (step s i) = step' (f s) i) {s : σ}
    {is : List ι} : Meets step (fun s i => C (f s) i) s is ↔ Meets step' C (f s) is := by
  induction is generalizing s with
  | nil => rfl
  | cons i is ih => rw [meets_cons, meets_cons, ih, hf]

end Image

instance decidableAlong [DecidablePred P] : ∀ s is, Decidable (Along step P s is)
  | s, [] => inferInstanceAs (Decidable (P s))
  | s, i :: is =>
      have := decidableAlong (step s i) is
      inferInstanceAs (Decidable (P s ∧ Along step P (step s i) is))

instance decidableMeets [∀ s i, Decidable (C s i)] : ∀ s is, Decidable (Meets step C s is)
  | _, [] => inferInstanceAs (Decidable True)
  | s, i :: is =>
      have := decidableMeets (step s i) is
      inferInstanceAs (Decidable (C s i ∧ Meets step C (step s i) is))

theorem Along.head {s : σ} {is : List ι} (h : Along step P s is) : P s := by
  cases is with
  | nil => exact h
  | cons i is => exact h.1

theorem Along.last {s : σ} {is : List ι} (h : Along step P s is) : P (run step s is) := by
  induction is generalizing s with
  | nil => exact h
  | cons i is ih => exact ih h.2

/-- `P` holds along a run exactly when it holds at the end of each of its beginnings. -/
theorem along_iff_prefix {s : σ} {is : List ι} :
    Along step P s is ↔ ∀ js, js <+: is → P (run step s js) := by
  induction is generalizing s with
  | nil => simp
  | cons i is ih =>
      rw [along_cons, ih]
      constructor
      · intro h js hjs
        cases js with
        | nil => exact h.1
        | cons j js =>
            obtain ⟨rfl, hrest⟩ := List.cons_prefix_cons.mp hjs
            exact h.2 js hrest
      · intro h
        exact ⟨h [] (List.nil_prefix), fun js hjs =>
          h (i :: js) (List.cons_prefix_cons.mpr ⟨rfl, hjs⟩)⟩

theorem Along.mono {s : σ} {is : List ι} (hPQ : ∀ s, P s → Q s) (h : Along step P s is) :
    Along step Q s is := by
  induction is generalizing s with
  | nil => exact hPQ s h
  | cons i is ih => exact ⟨hPQ s h.1, ih h.2⟩

theorem Along.and {s : σ} {is : List ι} (hP : Along step P s is) (hQ : Along step Q s is) :
    Along step (fun s => P s ∧ Q s) s is := by
  induction is generalizing s with
  | nil => exact ⟨hP, hQ⟩
  | cons i is ih => exact ⟨⟨hP.1, hQ.1⟩, ih hP.2 hQ.2⟩

theorem Meets.mono {s : σ} {is : List ι} (hCD : ∀ s i, C s i → D s i) (h : Meets step C s is) :
    Meets step D s is := by
  induction is generalizing s with
  | nil => trivial
  | cons i is ih => exact ⟨hCD s i h.1, ih h.2⟩

theorem Meets.and {s : σ} {is : List ι} (hC : Meets step C s is) (hD : Meets step D s is) :
    Meets step (fun s i => C s i ∧ D s i) s is := by
  induction is generalizing s with
  | nil => trivial
  | cons i is ih => exact ⟨⟨hC.1, hD.1⟩, ih hC.2 hD.2⟩

/-- An invariant needs to be preserved only by steps that meet the run's condition. -/
theorem along_of_preserved (hstep : ∀ s i, P s → C s i → P (step s i)) {s : σ} {is : List ι}
    (h : P s) (hm : Meets step C s is) : Along step P s is := by
  induction is generalizing s with
  | nil => exact h
  | cons i is ih => exact ⟨h, ih (hstep s i h hm.1) hm.2⟩

/-- What a step satisfies under an invariant that it preserves. -/
theorem meets_of_preserved (hstep : ∀ s i, P s → D s i → P (step s i) ∧ C s i) {s : σ} {is : List ι}
    (h : P s) (hm : Meets step D s is) : Meets step C s is := by
  induction is generalizing s with
  | nil => trivial
  | cons i is ih =>
      obtain ⟨hnext, hc⟩ := hstep s i h hm.1
      exact ⟨hc, ih hnext hm.2⟩

/-- A condition without which a step does not leave `P` true is met along a run that keeps `P`. -/
theorem meets_of_along (hstep : ∀ s i, P (step s i) → C s i) {s : σ} {is : List ι}
    (h : Along step P s is) : Meets step C s is := by
  induction is generalizing s with
  | nil => trivial
  | cons i is ih => exact ⟨hstep s i h.2.head, ih h.2⟩

theorem meets_true {s : σ} {is : List ι} : Meets step (fun _ _ => True) s is := by
  induction is generalizing s with
  | nil => trivial
  | cons i is ih => exact ⟨trivial, ih⟩

theorem meets_of_forall_mem {E : ι → Prop} {s : σ} {is : List ι} (h : ∀ i ∈ is, E i) :
    Meets step (fun _ i => E i) s is := by
  induction is generalizing s with
  | nil => trivial
  | cons i is ih => exact ⟨h i (by simp), ih fun j hj => h j (by simp [hj])⟩

/-- What each step of a run keeps, once it is there, lasts from any point of the run to any other. -/
theorem meets_keeps_iff {α : Type*} {R : α → σ → Prop} {s : σ} {is : List ι} :
    Meets step (fun s i => ∀ a, R a s → R a (step s i)) s is ↔
      ∀ earlier later, earlier ++ later <+: is →
        ∀ a, R a (run step s earlier) → R a (run step s (earlier ++ later)) := by
  induction is generalizing s with
  | nil =>
      refine iff_of_true trivial fun earlier later hpart a ha => ?_
      obtain ⟨rfl, rfl⟩ := List.append_eq_nil_iff.mp (List.prefix_nil.mp hpart)
      exact ha
  | cons i is ih =>
      rw [meets_cons, ih]
      constructor
      · rintro ⟨hfirst, hrest⟩ earlier later hpart a ha
        cases earlier with
        | cons j earlier =>
            obtain ⟨rfl, hrest'⟩ := List.cons_prefix_cons.mp hpart
            exact hrest earlier later hrest' a ha
        | nil =>
            cases later with
            | nil => exact ha
            | cons j later =>
                obtain ⟨rfl, hlater⟩ := List.cons_prefix_cons.mp hpart
                exact hrest [] later hlater a (hfirst a ha)
      · intro h
        refine ⟨fun a ha => h [] [i] (by simp) a ha, fun earlier later hpart a ha => ?_⟩
        exact h (i :: earlier) later (List.cons_prefix_cons.mpr ⟨rfl, hpart⟩) a ha

theorem along_of_invariant (hstep : ∀ s i, P s → P (step s i)) {s : σ} (h : P s) (is : List ι) :
    Along step P s is :=
  along_of_preserved (C := fun _ _ => True) (fun s i hs _ => hstep s i hs) h meets_true

theorem run_of_invariant (hstep : ∀ s i, P s → P (step s i)) {s : σ} (h : P s) (is : List ι) :
    P (run step s is) :=
  (along_of_invariant hstep h is).last

/-- Where, under an invariant `Q` kept by every step of the run, a step leaves `P`
true exactly when it meets `C`, the run keeps `P` exactly when all its steps meet `C`. -/
theorem along_iff_meets (hQ : ∀ s i, Q s → D s i → Q (step s i))
    (hP : ∀ s i, Q s → P s → D s i → (P (step s i) ↔ C s i)) {s : σ} {is : List ι}
    (hq : Q s) (hp : P s) (hD : Meets step D s is) :
    Along step P s is ↔ Meets step C s is := by
  induction is generalizing s with
  | nil => simpa using hp
  | cons i is ih =>
      have hiff := hP s i hq hp hD.1
      constructor
      · intro h
        have hc := hiff.mp h.2.head
        exact ⟨hc, (ih (hQ s i hq hD.1) (hiff.mpr hc) hD.2).mp h.2⟩
      · intro h
        exact ⟨hp, (ih (hQ s i hq hD.1) (hiff.mpr h.1) hD.2).mpr h.2⟩

/-- A flag that is only ever raised stands at the end if it stood at the begin or one of
the steps raised it. -/
theorem raised_iff {E : σ → ι → Prop} (hQ : ∀ s i, Q s → Q (step s i))
    (hP : ∀ s i, Q s → (P (step s i) ↔ P s ∨ E s i)) {s : σ} (hq : Q s) (is : List ι) :
    P (run step s is) ↔ P s ∨ ∃ past i, past ++ [i] <+: is ∧ E (run step s past) i := by
  induction is generalizing s with
  | nil => simp
  | cons i is ih =>
      rw [run_cons, ih (hQ s i hq), hP s i hq, or_assoc]
      refine or_congr_right ⟨?_, ?_⟩
      · rintro (he | ⟨past, j, hpast, he⟩)
        · exact ⟨[], i, by simp, he⟩
        · exact ⟨i :: past, j, by simpa using hpast, he⟩
      · rintro ⟨past, j, hpast, he⟩
        cases past with
        | nil =>
            obtain rfl : j = i := by simpa using hpast
            exact .inl he
        | cons k past =>
            obtain ⟨rfl, hrest⟩ : k = i ∧ past ++ [j] <+: is := by simpa using hpast
            exact .inr ⟨past, j, hrest, he⟩

end Run

end AfkClient

import AfkClient.Library.Run

/-! What an observer sees of a run, and runs that differ only in inputs which should
not be seen. -/

namespace AfkClient

section Observe

variable {σ ι ω ν : Type*} (step : σ → ι → σ) (out : σ → List ω)

/-- The outputs of all steps of a run, in order; `out` reads those of the last step. -/
def observe (s : σ) : List ι → List ω
  | [] => []
  | i :: is => out (step s i) ++ observe (step s i) is

/-- The inputs of a run that are not hidden. -/
def erase (hidden : ι → Bool) (inputs : List ι) : List ι := inputs.filter (! hidden ·)

/-- A machine that cannot tell states with equal `norm` apart, and whose `norm` no
hidden input changes. -/
structure Blind (norm : σ → ν) (hidden : ι → Bool) : Prop where
  congr : ∀ s t i, norm s = norm t → norm (step s i) = norm (step t i) ∧ out (step s i) = out (step t i)
  skip : ∀ s i, hidden i → norm (step s i) = norm s

variable {step out} {norm : σ → ν} {hidden : ι → Bool} (h : Blind step out norm hidden)
include h

theorem Blind.run_congr {s t : σ} (is : List ι) (hn : norm s = norm t) :
    norm (run step s is) = norm (run step t is) := by
  induction is generalizing s t with
  | nil => exact hn
  | cons i is ih => exact ih (h.congr s t i hn).1

theorem Blind.observe_congr {s t : σ} (is : List ι) (hn : norm s = norm t) :
    observe step out s is = observe step out t is := by
  induction is generalizing s t with
  | nil => rfl
  | cons i is ih =>
      obtain ⟨hnext, hout⟩ := h.congr s t i hn
      simp only [observe, hout, ih hnext]

/-- Hidden inputs never change the state. -/
theorem Blind.run_erase (s : σ) (is : List ι) :
    norm (run step s is) = norm (run step s (erase hidden is)) := by
  induction is generalizing s with
  | nil => rfl
  | cons i is ih =>
      cases hi : hidden i with
      | false => simpa [erase, hi] using ih (step s i)
      | true =>
          have hskip := h.run_congr (erase hidden is) (h.skip s i hi)
          simpa [erase, hi] using (ih (step s i)).trans hskip

theorem Blind.length_erase_le (s : σ) (is : List ι) :
    (observe step out s (erase hidden is)).length ≤ (observe step out s is).length := by
  induction is generalizing s with
  | nil => simp [erase]
  | cons i is ih =>
      have htail := ih (step s i)
      cases hi : hidden i with
      | false => simpa [erase, hi, observe] using htail
      | true =>
          rw [h.observe_congr (erase hidden is) (h.skip s i hi)] at htail
          simp only [erase, hi, observe, List.length_append, List.filter_cons, Bool.not_true] at htail ⊢
          exact htail.trans (Nat.le_add_left _ _)

/-- Hidden inputs go unnoticed exactly when none of them makes an output. -/
theorem Blind.observe_erase_iff (s : σ) (is : List ι) :
    observe step out s is = observe step out s (erase hidden is) ↔
      Meets step (fun s i => hidden i → out (step s i) = []) s is := by
  induction is generalizing s with
  | nil => simp [erase]
  | cons i is ih =>
      cases hi : hidden i with
      | false => simpa [erase, hi, observe] using ih (step s i)
      | true =>
          have hlen := h.length_erase_le (step s i) is
          have htail := ih (step s i)
          rw [h.observe_congr (erase hidden is) (h.skip s i hi)] at htail hlen
          have herase : erase hidden (i :: is) = erase hidden is := by simp [erase, hi]
          rw [herase, meets_cons, ← htail, observe]
          constructor
          · intro heq
            have hzero : (out (step s i)).length = 0 := by
              have := congrArg List.length heq
              simp only [List.length_append] at this
              omega
            have hnil := List.eq_nil_of_length_eq_zero hzero
            exact ⟨fun _ => hnil, by simpa [hnil] using heq⟩
          · rintro ⟨hout, heq⟩
            simpa [hout hi] using heq

end Observe

end AfkClient

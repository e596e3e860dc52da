import AfkClient.Library.Run
import Mathlib.Data.Int.Notation
import Mathlib.Algebra.Order.Ring.Int

/-! Rate limits. A machine spends from a level that time fills; if a spending step leaves
less than a burst behind, then every window of time holds few of them. -/

namespace AfkClient

section Meter

variable {σ ι : Type*} (step : σ → ι → σ) (now : σ → ℤ) (spends : σ → ι → Bool)

/-- When the spending steps of a run were taken, in order. -/
def spendTimes : σ → List ι → List ℤ
  | _, [] => []
  | s, i :: is => (if spends s i then [now s] else []) ++ spendTimes (step s i) is

/-- How many of them fell into the `D` milliseconds after `T`. -/
def spentWithin (T D : ℤ) (s : σ) (is : List ι) : ℕ :=
  (spendTimes step now spends s is).countP fun t => T ≤ t ∧ t ≤ T + D

/-- Under the invariant `I`, and in steps that meet `C`, no more is spent than time fills in. -/
structure Metered (I : σ → Prop) (C : σ → ι → Prop) (level : σ → ℤ) (cost burst : ℤ) : Prop where
  cost_pos : 0 < cost
  keeps : ∀ s i, I s → C s i → I (step s i)
  clock : ∀ s i, I s → C s i → now s ≤ now (step s i)
  nonneg : ∀ s, I s → 0 ≤ level s
  fills : ∀ s i, I s → C s i →
    level (step s i) + (if spends s i then cost else 0) ≤ level s + (now (step s i) - now s)
  rests : ∀ s i, I s → C s i → spends s i → level (step s i) < burst ∧ now (step s i) = now s

variable {step now spends} {I : σ → Prop} {C : σ → ι → Prop} {level : σ → ℤ} {cost burst : ℤ}
  (h : Metered step now spends I C level cost burst)
include h

theorem Metered.late (T D : ℤ) {s : σ} {is : List ι} (hs : I s) (hm : Meets step C s is)
    (ht : T + D < now s) : spentWithin step now spends T D s is = 0 := by
  induction is generalizing s with
  | nil => rfl
  | cons i is ih =>
      have hclock := h.clock s i hs hm.1
      have hrest := ih (h.keeps s i hs hm.1) hm.2 (by omega)
      have hpast : ¬ now s ≤ T + D := by omega
      unfold spentWithin at hrest ⊢
      cases hsp : spends s i with
      | false => simpa [spendTimes, hsp] using hrest
      | true => simpa [spendTimes, hsp, hpast] using hrest

/-- What is spent until `T + D` is covered by the level and the time that is left. -/
theorem Metered.spent_le (T D : ℤ) {s : σ} {is : List ι} (hs : I s) (hm : Meets step C s is)
    (ht : now s ≤ T + D) :
    cost * spentWithin step now spends T D s is ≤ level s + (T + D - now s) := by
  induction is generalizing s with
  | nil =>
      have hlevel := h.nonneg s hs
      simp only [spentWithin, spendTimes, List.countP_nil, Nat.cast_zero, mul_zero]
      omega
  | cons i is ih =>
      have hkeep := h.keeps s i hs hm.1
      have hfill := h.fills s i hs hm.1
      cases hsp : spends s i with
      | false =>
          have hsame : spentWithin step now spends T D s (i :: is) =
              spentWithin step now spends T D (step s i) is := by
            simp [spentWithin, spendTimes, hsp]
          rw [hsame]
          simp only [hsp, Bool.false_eq_true, if_false] at hfill
          by_cases hlate : T + D < now (step s i)
          · have hlevel := h.nonneg s hs
            rw [h.late T D hkeep hm.2 hlate]
            simp only [Nat.cast_zero, mul_zero]
            omega
          · have hrest := ih hkeep hm.2 (by omega)
            omega
      | true =>
          have hnow := (h.rests s i hs hm.1 hsp).2
          have hrest := ih hkeep hm.2 (by omega)
          have hone : spentWithin step now spends T D s (i :: is) ≤
              spentWithin step now spends T D (step s i) is + 1 := by
            simp only [spentWithin, spendTimes, hsp, if_true, List.singleton_append]
            rw [List.countP_cons]
            split <;> omega
          have hmul := mul_le_mul_of_nonneg_left (Int.ofNat_le.mpr hone) h.cost_pos.le
          simp only [hsp, if_true] at hfill
          push_cast at hmul
          rw [mul_add, mul_one] at hmul
          omega

/-- No window holds more than one spending step, a burst and what time fills in. -/
theorem Metered.window {T D : ℤ} (hD : 0 ≤ D) (hburst : 0 ≤ burst) {s : σ} {is : List ι}
    (hs : I s) (hm : Meets step C s is) :
    cost * spentWithin step now spends T D s is < cost + burst + D := by
  have hcost := h.cost_pos
  induction is generalizing s with
  | nil =>
      simp only [spentWithin, spendTimes, List.countP_nil, Nat.cast_zero, mul_zero]
      omega
  | cons i is ih =>
      have hkeep := h.keeps s i hs hm.1
      by_cases hcount : spends s i ∧ T ≤ now s ∧ now s ≤ T + D
      · obtain ⟨hsp, hfrom, hto⟩ := hcount
        obtain ⟨hrest, hnow⟩ := h.rests s i hs hm.1 hsp
        have hle := h.spent_le T D hkeep hm.2 (by omega)
        have hone : spentWithin step now spends T D s (i :: is) =
            spentWithin step now spends T D (step s i) is + 1 := by
          simp [spentWithin, spendTimes, hsp, hfrom, hto]
        rw [hone]
        push_cast
        rw [mul_add, mul_one]
        omega
      · have hsame : spentWithin step now spends T D s (i :: is) =
            spentWithin step now spends T D (step s i) is := by
          cases hsp : spends s i with
          | false => simp [spentWithin, spendTimes, hsp]
          | true =>
              have hout : ¬ (T ≤ now s ∧ now s ≤ T + D) := fun hin => hcount ⟨hsp, hin⟩
              simpa [spentWithin, spendTimes, hsp, List.countP_cons] using hout
        rw [hsame]
        exact ih hkeep hm.2

end Meter

end AfkClient

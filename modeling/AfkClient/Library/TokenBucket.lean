import Mathlib.Algebra.Order.Field.Basic
import Mathlib.Algebra.Order.Floor.Ring
import Mathlib.Tactic.Linarith
import Mathlib.Tactic.Ring

/-! # Token buckets

A bucket of a fixed capacity is filled at a fixed rate, and every act takes one token. Then no
window of time holds more acts than a full bucket and what flows in meanwhile. -/

namespace AfkClient.TokenBucket

variable {K : Type*} [Field K] [LinearOrder K] [IsStrictOrderedRing K]

/-- The acts between two points in time. -/
def between (times : List K) (T T' : K) : ℕ := times.countP fun t => T ≤ t ∧ t ≤ T'

/-- The acts from a point in time on. -/
def since (times : List K) (T : K) : ℕ := times.countP fun t => T ≤ t

/-- A bucket with its last update, over all the times at which a token was taken. -/
structure Paced (capacity rate tokens updatedAt : K) (times : List K) : Prop where
  full : tokens ≤ capacity
  nonneg : 0 ≤ tokens
  past : ∀ t ∈ times, t ≤ updatedAt
  recent : ∀ T ≤ updatedAt, (since times T : K) + tokens ≤ capacity + (updatedAt - T) * rate
  window : ∀ T T', T ≤ T' → (between times T T' : K) ≤ capacity + (T' - T) * rate

theorem Paced.start {capacity rate : K} (updatedAt : K) (hcapacity : 0 ≤ capacity)
    (hrate : 0 ≤ rate) : Paced capacity rate capacity updatedAt [] where
  full := le_rfl
  nonneg := hcapacity
  past := by simp
  recent T hT := by
    have hfill := mul_nonneg (sub_nonneg.mpr hT) hrate
    simp only [since, List.countP_nil, Nat.cast_zero, zero_add]
    linarith
  window T T' hT := by
    have hfill := mul_nonneg (sub_nonneg.mpr hT) hrate
    simp only [between, List.countP_nil, Nat.cast_zero]
    linarith

variable {capacity rate tokens updatedAt : K} {times : List K}

theorem Paced.refill (h : Paced capacity rate tokens updatedAt times) {now : K}
    (hcapacity : 0 ≤ capacity) (hrate : 0 ≤ rate) (hnow : updatedAt ≤ now) :
    Paced capacity rate (min (tokens + (now - updatedAt) * rate) capacity) now times where
  full := min_le_right _ _
  nonneg := by
    have hfill := mul_nonneg (sub_nonneg.mpr hnow) hrate
    exact le_min (add_nonneg h.nonneg hfill) hcapacity
  past t ht := (h.past t ht).trans hnow
  recent T hT := by
    by_cases hlate : T ≤ updatedAt
    · have hrecent := h.recent T hlate
      have hmin := min_le_left (tokens + (now - updatedAt) * rate) capacity
      linarith [show (now - T) * rate = (now - updatedAt) * rate + (updatedAt - T) * rate by ring]
    · have hnone : since times T = 0 := by
        rw [since, List.countP_eq_zero]
        intro t ht
        have hpast := h.past t ht
        simp only [decide_eq_true_eq, not_le]
        linarith
      have hfill := mul_nonneg (sub_nonneg.mpr hT) hrate
      have hmin := min_le_right (tokens + (now - updatedAt) * rate) capacity
      rw [hnone, Nat.cast_zero]
      linarith
  window := h.window

theorem Paced.spend (h : Paced capacity rate tokens updatedAt times) (hrate : 0 ≤ rate)
    (htoken : 1 ≤ tokens) :
    Paced capacity rate (tokens - 1) updatedAt (times ++ [updatedAt]) where
  full := by linarith [h.full]
  nonneg := by linarith
  past t ht := by
    rcases List.mem_append.mp ht with ht | ht
    · exact h.past t ht
    · exact (List.mem_singleton.mp ht).le
  recent T hT := by
    have hrecent := h.recent T hT
    have hone : since (times ++ [updatedAt]) T = since times T + 1 := by
      simp [since, List.countP_append, hT]
    rw [hone]
    push_cast
    linarith
  window T T' hT := by
    have hold := h.window T T' hT
    by_cases hin : T ≤ updatedAt ∧ updatedAt ≤ T'
    · have hcount : between (times ++ [updatedAt]) T T' ≤ since times T + 1 := by
        have hle : between times T T' ≤ since times T :=
          List.countP_mono_left fun t _ ht => by
            simp only [decide_eq_true_eq] at ht ⊢
            exact ht.1
        simpa [between, List.countP_append, hin.1, hin.2] using hle
      have hrecent := h.recent T hin.1
      have hspan := mul_nonneg (sub_nonneg.mpr hin.2) hrate
      have hcast : (between (times ++ [updatedAt]) T T' : K) ≤ since times T + 1 := by
        exact_mod_cast hcount
      linarith [show (T' - T) * rate = (T' - updatedAt) * rate + (updatedAt - T) * rate by ring]
    · have hsame : between (times ++ [updatedAt]) T T' = between times T T' := by
        simp [between, List.countP_append, hin]
      rw [hsame]
      exact hold

/-- The bound of a window in whole acts. -/
theorem Paced.window_floor [FloorRing K] (h : Paced capacity rate tokens updatedAt times)
    (burst : ℕ) (hburst : capacity = burst) (T : K) {D : K} (hD : 0 ≤ D) :
    (between times T (T + D) : ℤ) ≤ burst + ⌊D * rate⌋ := by
  have hwindow := h.window T (T + D) (le_add_of_nonneg_right hD)
  rw [add_sub_cancel_left, hburst, ← sub_le_iff_le_add'] at hwindow
  have hfloor : (between times T (T + D) : ℤ) - burst ≤ ⌊D * rate⌋ := by
    rw [Int.le_floor]
    push_cast
    exact hwindow
  omega

end AfkClient.TokenBucket

import AfkClient.Model.EarningsHistory
import Mathlib.Algebra.BigOperators.Ring.Finset
import Mathlib.Tactic.Ring

/-! Every sale of the window is counted in the interval of its time, and the intervals of two
ranges agree where both have them. -/

namespace AfkClient.EarningsHistory

open Earnings (SellEarning)

/-! ### Sales between two times -/

/-- What the account sold from a time on and before another, in cents. -/
def centsBetween (sales : List SellEarning) (id : String) (first last : ℤ) : ℤ :=
  ((sales.filter fun sale =>
    sale.minecraftAccountId = id ∧ first ≤ sale.createdAt ∧ sale.createdAt < last).map cents).sum

theorem centsBetween_cons (sale : SellEarning) (sales : List SellEarning) (id : String)
    (first last : ℤ) :
    centsBetween (sale :: sales) id first last =
      (if sale.minecraftAccountId = id ∧ first ≤ sale.createdAt ∧ sale.createdAt < last
        then cents sale else 0) + centsBetween sales id first last := by
  by_cases h : sale.minecraftAccountId = id ∧ first ≤ sale.createdAt ∧ sale.createdAt < last <;>
    simp [centsBetween, h]

/-- The sales of two adjacent intervals are those of both together. -/
theorem centsBetween_add (sales : List SellEarning) (id : String) {first middle last : ℤ}
    (hfirst : first ≤ middle) (hlast : middle ≤ last) :
    centsBetween sales id first middle + centsBetween sales id middle last =
      centsBetween sales id first last := by
  induction sales with
  | nil => rfl
  | cons sale sales ih =>
      rw [centsBetween_cons, centsBetween_cons, centsBetween_cons, ← ih]
      by_cases hid : sale.minecraftAccountId = id
      · by_cases hmiddle : sale.createdAt < middle
        · have hlow : ¬ middle ≤ sale.createdAt := by omega
          have hhigh : sale.createdAt < last := by omega
          simp only [hid, hmiddle, hlow, hhigh, true_and, and_true, if_false]
          ring
        · have hlow : first ≤ sale.createdAt := by omega
          have hmiddle' : middle ≤ sale.createdAt := by omega
          simp only [hid, hmiddle, hlow, hmiddle', true_and, and_false, if_false]
          ring
      · simp only [hid, false_and, if_false]
        ring

theorem centsBetween_self (sales : List SellEarning) (id : String) (time : ℤ) :
    centsBetween sales id time time = 0 := by
  have h := centsBetween_add sales id (le_refl time) (le_refl time)
  omega

/-- The sums of equal intervals, one after the other. -/
theorem sum_centsBetween (sales : List SellEarning) (id : String) (start : ℤ) {width : ℤ}
    (hwidth : 0 ≤ width) (count : ℕ) :
    ((List.range count).map fun i : ℕ =>
        centsBetween sales id (start + i * width) (start + i * width + width)).sum =
      centsBetween sales id start (start + count * width) := by
  induction count with
  | zero => simp [centsBetween_self]
  | succ count ih =>
      have hcount : (0 : ℤ) ≤ count * width := Int.mul_nonneg (by omega) hwidth
      rw [List.range_succ, List.map_append, List.sum_append, ih, List.map_singleton,
        List.sum_singleton, centsBetween_add sales id (by omega) (by omega)]
      congr 1
      push_cast
      ring

/-! ### The query -/

variable {sales : List SellEarning} {id : String} {range : EarningsRange} {now : ℤ}

theorem bucketMs_pos (range : EarningsRange) : 0 < (EARNINGS_WINDOWS range).bucketMs := by
  cases range <;> decide

theorem bucketMs_eq (range : EarningsRange) : (EARNINGS_WINDOWS range).bucketMs = 300000 := by
  cases range <;> rfl

theorem endOf_eq (range other : EarningsRange) (now : ℤ) : endOf range now = endOf other now := by
  rw [endOf, endOf, bucketMs_eq, bucketMs_eq]

/-- How many intervals a window has. -/
def count (range : EarningsRange) : ℕ :=
  ((EARNINGS_WINDOWS range).durationMs / (EARNINGS_WINDOWS range).bucketMs).toNat

theorem count_mul (range : EarningsRange) :
    (count range : ℤ) * (EARNINGS_WINDOWS range).bucketMs =
      (EARNINGS_WINDOWS range).durationMs := by
  cases range <;> rfl

/-- The division numbers the intervals of the window. -/
theorem bucket_eq_iff {start time width : ℤ} (hwidth : 0 < width) (hstart : start ≤ time) (i : ℕ) :
    (time - start).tdiv width = i ↔ start + i * width ≤ time ∧ time < start + i * width + width := by
  rw [Int.tdiv_eq_ediv_of_nonneg (by omega)]
  constructor
  · intro h
    have hlow := Int.ediv_mul_le (time - start) hwidth.ne'
    have hhigh := Int.lt_ediv_add_one_mul_self (time - start) hwidth
    rw [h] at hlow hhigh
    constructor
    · omega
    · linarith [add_mul (i : ℤ) 1 width]
  · rintro ⟨hlow, hhigh⟩
    apply le_antisymm
    · apply Int.le_of_lt_add_one
      rw [Int.ediv_lt_iff_lt_mul hwidth, add_mul]
      omega
    · rw [Int.le_ediv_iff_mul_le hwidth]
      omega

/-- The sum that the loop finds for an interval. -/
theorem sumOf_rows {i : ℕ} (hi : i < count range) :
    Grouping.sumOf Prod.fst Prod.snd ((⟨id, range, now⟩ : Query).rows sales) (i : ℤ) =
      centsBetween sales id
        ((⟨id, range, now⟩ : Query).interval.1 + i * (EARNINGS_WINDOWS range).bucketMs)
        ((⟨id, range, now⟩ : Query).interval.1 + i * (EARNINGS_WINDOWS range).bucketMs
          + (EARNINGS_WINDOWS range).bucketMs) := by
  rw [Query.rows, Grouping.sumOf_groups, Grouping.sumOf, List.filter_filter, centsBetween]
  congr 2
  refine List.filter_congr fun sale _ => ?_
  have hwidth := bucketMs_pos range
  have hlow : (0 : ℤ) ≤ i * (EARNINGS_WINDOWS range).bucketMs := Int.mul_nonneg (by omega) hwidth.le
  have hhigh : (i + 1 : ℤ) * (EARNINGS_WINDOWS range).bucketMs ≤ (EARNINGS_WINDOWS range).durationMs := by
    rw [← count_mul]
    exact Int.mul_le_mul_of_nonneg_right (by omega) hwidth.le
  rw [add_mul, one_mul] at hhigh
  have hend : (⟨id, range, now⟩ : Query).interval.2 =
      (⟨id, range, now⟩ : Query).interval.1 + (EARNINGS_WINDOWS range).durationMs := by
    simp [Query.interval]
  rw [← Bool.decide_and, decide_eq_decide, hend]
  constructor
  · rintro ⟨hbucket, hid, hstart, -⟩
    exact ⟨hid, (bucket_eq_iff hwidth hstart i).mp hbucket⟩
  · rintro ⟨hid, htime⟩
    have hstart : sale.createdAt ≥ (⟨id, range, now⟩ : Query).interval.1 := by omega
    exact ⟨(bucket_eq_iff hwidth hstart i).mpr htime, hid, hstart, by omega⟩

/-! ### The points -/

/-- The number of an interval, as the point of the answer. -/
def pointAt (sales : List SellEarning) (id : String) (start width : ℤ) (i : ℕ) : Point where
  at' := start + i * width
  amount := (centsBetween sales id (start + i * width) (start + i * width + width) : ℚ) / 100

theorem cells_eq : ((⟨id, range, now⟩ : Query).rows sales).foldl (Grouping.add (count range))
    (List.replicate (count range) 0) = (List.range (count range)).map fun i : ℕ =>
      centsBetween sales id
        ((⟨id, range, now⟩ : Query).interval.1 + i * (EARNINGS_WINDOWS range).bucketMs)
        ((⟨id, range, now⟩ : Query).interval.1 + i * (EARNINGS_WINDOWS range).bucketMs
          + (EARNINGS_WINDOWS range).bucketMs) := by
  have hlen := Grouping.length_foldl_add (count range) ((⟨id, range, now⟩ : Query).rows sales)
    (List.replicate (count range) 0)
  rw [List.length_replicate] at hlen
  refine List.ext_getElem (by simpa using hlen) fun i hi _ => ?_
  have hcount : i < count range := hlen ▸ hi
  rw [← List.getD_eq_getElem _ 0 hi, Grouping.getD_foldl_add _ List.length_replicate hcount,
    sumOf_rows hcount]
  simp

/-- The answer, interval by interval. -/
theorem aggregate_eq : aggregateEarningsHistory sales id range now =
    { range
      start := endOf range now - (EARNINGS_WINDOWS range).durationMs
      endAt := endOf range now
      bucketMs := (EARNINGS_WINDOWS range).bucketMs
      total := (centsBetween sales id (endOf range now - (EARNINGS_WINDOWS range).durationMs)
        (endOf range now) : ℚ) / 100
      points := (List.range (count range)).map
        (pointAt sales id (endOf range now - (EARNINGS_WINDOWS range).durationMs)
          (EARNINGS_WINDOWS range).bucketMs) } := by
  simp only [aggregateEarningsHistory]
  rw [← count, cells_eq, ← List.sum_eq_foldl, sum_centsBetween _ _ _ (bucketMs_pos range).le,
    count_mul]
  simp only [Query.interval, sub_add_cancel, History.mk.injEq, true_and]
  refine List.ext_getElem (by simp) fun i _ _ => ?_
  simp [pointAt]

theorem getElem?_points {start width : ℤ} {n i : ℕ} {p : Point} :
    ((List.range n).map (pointAt sales id start width))[i]? = some p ↔
      i < n ∧ pointAt sales id start width i = p := by
  by_cases hi : i < n
  · simp [hi]
  · simp [hi]

/-- A time of the window lies in one interval of it. -/
theorem window_iff {start width time : ℤ} (hwidth : 0 < width) (n : ℕ) :
    start ≤ time ∧ time < start + n * width ↔
      ∃! i : ℕ, i < n ∧ start + i * width ≤ time ∧ time < start + i * width + width := by
  constructor
  · rintro ⟨hstart, hend⟩
    have hquotient : 0 ≤ (time - start) / width := Int.ediv_nonneg (by omega) hwidth.le
    have hnumber : (time - start).tdiv width = ((time - start) / width).toNat := by
      rw [Int.tdiv_eq_ediv_of_nonneg (by omega), Int.toNat_of_nonneg hquotient]
    have hlt : (time - start) / width < n := by
      rw [Int.ediv_lt_iff_lt_mul hwidth]
      omega
    refine ⟨((time - start) / width).toNat, ⟨by omega, (bucket_eq_iff hwidth hstart _).mp hnumber⟩,
      fun j hj => ?_⟩
    have hj' := (bucket_eq_iff hwidth hstart j).mpr hj.2
    omega
  · rintro ⟨i, ⟨hi, hlow, hhigh⟩, -⟩
    have hstart : (0 : ℤ) ≤ i * width := Int.mul_nonneg (by omega) hwidth.le
    have hend : (i + 1 : ℤ) * width ≤ n * width :=
      Int.mul_le_mul_of_nonneg_right (by omega) hwidth.le
    rw [add_mul, one_mul] at hend
    omega

/-- Contiguous intervals over the whole window, each with the sales of its times and no others. -/
structure Exact (sales : List SellEarning) (id : String) (h : History) : Prop where
  counted : ∀ p ∈ h.points, p.amount * 100 = centsBetween sales id p.at' (p.at' + h.bucketMs)
  one : ∀ time, h.start ≤ time ∧ time < h.endAt ↔
    ∃! i : ℕ, ∃ p : Point, h.points[i]? = some p ∧ p.at' ≤ time ∧ time < p.at' + h.bucketMs
  total : h.total * 100 = (h.points.map (·.amount * 100)).sum
  all : h.total * 100 = centsBetween sales id h.start h.endAt
  contiguous : ∀ (i : ℕ) (p : Point), h.points[i]? = some p → p.at' = h.start + i * h.bucketMs
  cover : h.start + h.points.length * h.bucketMs = h.endAt

theorem aggregate_exact (sales : List SellEarning) (id : String) (range : EarningsRange) (now : ℤ) :
    Exact sales id (aggregateEarningsHistory sales id range now) where
  counted p hp := by
    rw [aggregate_eq] at hp ⊢
    obtain ⟨i, -, rfl⟩ := List.mem_map.mp hp
    rw [pointAt, div_mul_cancel₀ _ (by norm_num)]
  one time := by
    rw [aggregate_eq]
    simp only [getElem?_points]
    have hwindow := @window_iff (endOf range now - (EARNINGS_WINDOWS range).durationMs) _ time
      (bucketMs_pos range) (count range)
    rw [count_mul, sub_add_cancel] at hwindow
    rw [hwindow]
    refine existsUnique_congr fun i => ?_
    constructor
    · rintro ⟨hi, htime⟩
      exact ⟨_, ⟨hi, rfl⟩, htime⟩
    · rintro ⟨p, ⟨hi, rfl⟩, htime⟩
      exact ⟨hi, htime⟩
  total := by
    rw [aggregate_eq, List.map_map, div_mul_cancel₀ _ (by norm_num)]
    have hsum := sum_centsBetween sales id
      (endOf range now - (EARNINGS_WINDOWS range).durationMs) (bucketMs_pos range).le (count range)
    rw [count_mul, sub_add_cancel] at hsum
    rw [← hsum, Int.cast_list_sum, List.map_map]
    congr 2
    funext i
    simp [pointAt]
  all := by
    rw [aggregate_eq, div_mul_cancel₀ _ (by norm_num)]
  contiguous i p hp := by
    rw [aggregate_eq] at hp ⊢
    obtain ⟨-, rfl⟩ := getElem?_points.mp hp
    rfl
  cover := by
    rw [aggregate_eq]
    simp [count_mul]

/-- Over the same sales the ranges agree on every interval inside both windows. -/
theorem earnings_buckets (sales : List SellEarning) (id : String) (range : EarningsRange) (now : ℤ) :
    Exact sales id (aggregateEarningsHistory sales id range now) ∧
      ∀ other, ∀ p ∈ (aggregateEarningsHistory sales id range now).points,
        (aggregateEarningsHistory sales id other now).start ≤ p.at' →
          p.at' + (aggregateEarningsHistory sales id range now).bucketMs ≤
            (aggregateEarningsHistory sales id other now).endAt →
          p ∈ (aggregateEarningsHistory sales id other now).points := by
  refine ⟨aggregate_exact sales id range now, fun other p hp hlow hhigh => ?_⟩
  rw [aggregate_eq] at hp hlow hhigh ⊢
  obtain ⟨i, hi, rfl⟩ := List.mem_map.mp hp
  have hi' := List.mem_range.mp hi
  have hduration := count_mul range
  have hother := count_mul other
  simp only [pointAt, bucketMs_eq, endOf_eq other range] at hlow hhigh hduration hother ⊢
  -- the number of the interval counted from the start of the other window
  refine List.mem_map.mpr ⟨count other + i - count range, List.mem_range.mpr (by omega), ?_⟩
  have hat : endOf range now - (EARNINGS_WINDOWS other).durationMs
      + ((count other + i - count range : ℕ) : ℤ) * 300000 =
        endOf range now - (EARNINGS_WINDOWS range).durationMs + i * 300000 := by
    omega
  simp only [pointAt, hat]

end AfkClient.EarningsHistory

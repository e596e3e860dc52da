import Mathlib.Algebra.BigOperators.Group.List.Basic
import Mathlib.Data.List.Dedup
import Mathlib.Data.List.GetD

/-! Rows grouped by a key with the sum of each group, and the sums added to numbered cells. -/

namespace AfkClient.Grouping

variable {α ι M : Type*} [DecidableEq ι] [AddCommMonoid M]

/-- The sum over the rows of a key. -/
def sumOf (key : α → ι) (value : α → M) (rows : List α) (k : ι) : M :=
  ((rows.filter (key · = k)).map value).sum

/-- One entry for each key of the rows. -/
def groups (key : α → ι) (value : α → M) (rows : List α) : List (ι × M) :=
  (rows.map key).dedup.map fun k => (k, sumOf key value rows k)

theorem sumOf_nil (key : α → ι) (value : α → M) (k : ι) : sumOf key value [] k = 0 := rfl

theorem sumOf_cons (key : α → ι) (value : α → M) (row : α) (rows : List α) (k : ι) :
    sumOf key value (row :: rows) k =
      (if key row = k then value row else 0) + sumOf key value rows k := by
  by_cases h : key row = k <;> simp [sumOf, h]

theorem sumOf_of_not_mem {key : α → ι} {value : α → M} {rows : List α} {k : ι}
    (h : k ∉ rows.map key) : sumOf key value rows k = 0 := by
  have hnil : rows.filter (key · = k) = [] := by
    rw [List.filter_eq_nil_iff]
    intro row hrow hkey
    exact h (List.mem_map.mpr ⟨row, hrow, of_decide_eq_true hkey⟩)
  rw [sumOf, hnil]
  rfl

/-- Summed once more by their key, the groups are the sums of the rows. -/
theorem sumOf_groups (key : α → ι) (value : α → M) (rows : List α) (k : ι) :
    sumOf Prod.fst Prod.snd (groups key value rows) k = sumOf key value rows k := by
  have hentries : (groups key value rows).filter (·.1 = k) =
      List.replicate ((rows.map key).dedup.count k) (k, sumOf key value rows k) := by
    rw [groups, List.filter_map]
    change ((rows.map key).dedup.filter (· = k)).map _ = _
    rw [List.filter_eq, List.map_replicate]
  rw [sumOf, hentries, List.count_dedup]
  by_cases h : k ∈ rows.map key
  · rw [if_pos h]
    simp
  · rw [if_neg h, sumOf_of_not_mem h]
    simp

/-- The entry is added to its cell; one without a cell is left out. -/
def add (count : ℕ) (cells : List M) (entry : ℤ × M) : List M :=
  if 0 ≤ entry.1 ∧ entry.1 < count then cells.modify entry.1.toNat (· + entry.2) else cells

theorem length_foldl_add (count : ℕ) (entries : List (ℤ × M)) (cells : List M) :
    (entries.foldl (add count) cells).length = cells.length := by
  induction entries generalizing cells with
  | nil => rfl
  | cons entry entries ih =>
      rw [List.foldl_cons, ih, add]
      by_cases h : 0 ≤ entry.1 ∧ entry.1 < count
      · rw [if_pos h, List.length_modify]
      · rw [if_neg h]

/-- A cell holds what it held and the sum of the entries with its number. -/
theorem getD_foldl_add {count : ℕ} (entries : List (ℤ × M)) {cells : List M}
    (hlen : cells.length = count) {i : ℕ} (hi : i < count) :
    (entries.foldl (add count) cells).getD i 0 =
      cells.getD i 0 + sumOf Prod.fst Prod.snd entries (i : ℤ) := by
  induction entries generalizing cells with
  | nil => rw [List.foldl_nil, sumOf_nil, add_zero]
  | cons entry entries ih =>
      have hadd : (add count cells entry).length = count := by
        exact (length_foldl_add count [entry] cells).trans hlen
      rw [List.foldl_cons, ih hadd, sumOf_cons, ← add_assoc]
      congr 1
      by_cases hkey : entry.1 = i
      · rw [if_pos hkey, add, if_pos (by omega), hkey, Int.toNat_natCast,
          List.getD_eq_getElem _ _ (by simpa [hlen] using hi),
          List.getD_eq_getElem _ _ (hlen ▸ hi)]
        simp
      · rw [if_neg hkey, add_zero, add]
        by_cases h : 0 ≤ entry.1 ∧ entry.1 < count
        · have hne : entry.1.toNat ≠ i := by omega
          rw [if_pos h, List.getD_eq_getElem _ _ (by simpa [hlen] using hi),
            List.getD_eq_getElem _ _ (hlen ▸ hi), List.getElem_modify, if_neg hne]
        · rw [if_neg h]

end AfkClient.Grouping

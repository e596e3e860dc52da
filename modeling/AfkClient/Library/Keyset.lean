import Mathlib.Data.List.Sort
import Mathlib.Order.Basic

/-! Rows in the descending order of a key that no two of them share: what is read behind a cursor,
and what is kept of the newest ones. -/

namespace AfkClient.Keyset

variable {α κ : Type*} [LinearOrder κ] (key : α → κ)

def newestFirst (rows : List α) : List α := rows.mergeSort fun a b => decide (key b ≤ key a)

/-- Strictly descending keys -/
def Descending (rows : List α) : Prop := rows.Pairwise fun a b => key b < key a

variable {key} {rows : List α} {row : α} {cursor : κ} {n : ℕ}

@[simp] theorem mem_newestFirst : row ∈ newestFirst key rows ↔ row ∈ rows := List.mem_mergeSort

theorem newestFirst_perm (rows : List α) : (newestFirst key rows).Perm rows := List.mergeSort_perm ..

theorem newestFirst_descending (h : (rows.map key).Nodup) : Descending key (newestFirst key rows) := by
  have hsorted : (newestFirst key rows).Pairwise fun a b => decide (key b ≤ key a) :=
    List.pairwise_mergeSort (fun a b c => by simpa using fun hba hcb => le_trans hcb hba)
      (fun a b => by simpa using le_total (key b) (key a)) rows
  have hdistinct : (newestFirst key rows).Pairwise fun a b => key a ≠ key b :=
    List.pairwise_map.mp (((newestFirst_perm rows).map key).nodup_iff.mpr h)
  refine (hsorted.and hdistinct).imp fun hab => ?_
  exact lt_of_le_of_ne (of_decide_eq_true hab.1) (Ne.symm hab.2)

namespace Descending

theorem sublist {rows' : List α} (h : Descending key rows) (hsub : rows'.Sublist rows) :
    Descending key rows' := List.Pairwise.sublist hsub h

/-- Rows have one descending order only. -/
theorem eq_of_perm {rows' : List α} (h : Descending key rows) (h' : Descending key rows')
    (hperm : rows.Perm rows') : rows = rows' :=
  hperm.eq_of_pairwise (fun _ _ _ _ hab hba => absurd hab (not_lt_of_gt hba)) h h'

/-- A row is among the first ones or behind all of them. -/
theorem mem_take_or_lt (h : Descending key rows) (hrow : row ∈ rows) (n : ℕ) :
    row ∈ rows.take n ∨ ∀ other ∈ rows.take n, key row < key other := by
  rw [← List.take_append_drop n rows] at hrow h
  rcases List.mem_append.mp hrow with hfirst | hrest
  · exact .inl hfirst
  · exact .inr fun other hother => (List.pairwise_append.mp h).2.2 other hother row hrest

/-- The rows from the `n`th one on are those up to its key. -/
theorem filter_getElem {last : α} (h : Descending key rows) (hlast : rows[n]? = some last) :
    rows.filter (fun row => ! decide (key row < key last)) = rows.take (n + 1) := by
  induction rows generalizing n with
  | nil => cases hlast
  | cons first rest ih =>
      have hfirst := List.pairwise_cons.mp h
      cases n with
      | zero =>
          obtain rfl := Option.some.inj hlast
          have hnone : rest.filter (fun row => ! decide (key row < key first)) = [] := by
            refine List.filter_eq_nil_iff.mpr fun row hrow => ?_
            simpa using hfirst.1 row hrow
          simp [hnone]
      | succ n =>
          have hmem : last ∈ rest := List.mem_of_getElem? hlast
          have hkept : ¬ key first < key last := not_lt_of_gt (hfirst.1 last hmem)
          rw [List.filter_cons_of_pos (by simpa using hkept), ih hfirst.2 hlast, List.take_succ_cons]

end Descending

theorem filter_newestFirst (h : (rows.map key).Nodup) (p : α → Bool) :
    newestFirst key (rows.filter p) = (newestFirst key rows).filter p := by
  have hsub : ((rows.filter p).map key).Nodup := h.sublist (List.filter_sublist.map key)
  refine (newestFirst_descending hsub).eq_of_perm
    ((newestFirst_descending h).sublist List.filter_sublist) ?_
  exact (newestFirst_perm _).trans ((newestFirst_perm rows).filter p).symm

end AfkClient.Keyset

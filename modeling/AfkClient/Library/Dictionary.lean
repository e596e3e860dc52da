import AfkClient.Library.Table

/-! Dictionaries whose entries keep the order in which their keys came. -/

namespace AfkClient

/-- Entries with a key and a value each. -/
abbrev Dictionary (κ α : Type*) := Table (Prod.fst : κ × α → κ)

namespace Dictionary

variable {κ α : Type*} [DecidableEq κ]

def get? (m : Dictionary κ α) (k : κ) : Option α := (m.find? k).map Prod.snd

/-- A new key goes to the end, a known one stays where it is. -/
def set (m : Dictionary κ α) (k : κ) (a : α) : Dictionary κ α :=
  if (m.get? k).isSome then m.update k (fun e => (e.1, a)) fun _ => rfl else m.insert (k, a)

def size (m : Dictionary κ α) : ℕ := m.rows.length

def empty : Dictionary κ α := Table.empty

def delete (m : Dictionary κ α) (k : κ) : Dictionary κ α := Table.delete m k

/-- The entry that came first makes room for another one when there are `max` of them. -/
def evict (m : Dictionary κ α) (max : ℕ) : Dictionary κ α :=
  if m.size ≥ max then
    match m.rows with
    | first :: _ => m.delete first.1
    | [] => m
  else m

/-- The entries that satisfy `p` are deleted. -/
def deleteWhere (m : Dictionary κ α) (p : κ × α → Bool) : Dictionary κ α := Table.deleteWhere m p

variable (m : Dictionary κ α) (k : κ) (a : α)

theorem find?_eq_none_of_get? {m : Dictionary κ α} {k : κ} (h : m.get? k = none) :
    m.find? k = none := Option.map_eq_none_iff.mp h

theorem get?_eq_some {m : Dictionary κ α} {k : κ} {a : α} :
    m.get? k = some a ↔ (k, a) ∈ m.rows := by
  rw [get?, Option.map_eq_some_iff]
  constructor
  · rintro ⟨e, he, rfl⟩
    obtain ⟨hmem, rfl⟩ := Table.find?_eq_some.mp he
    exact hmem
  · exact fun hmem => ⟨(k, a), Table.find?_eq_some.mpr ⟨hmem, rfl⟩, rfl⟩

@[simp] theorem get?_empty : (empty : Dictionary κ α).get? k = none := rfl

theorem get?_set (j : κ) : (m.set k a).get? j = if j = k then some a else m.get? j := by
  unfold set
  split
  · rename_i hknown
    obtain ⟨b, hb⟩ := Option.isSome_iff_exists.mp hknown
    rw [get?, Table.find?_update]
    by_cases hj : j = k
    · subst hj
      obtain ⟨e, he, -⟩ := Option.map_eq_some_iff.mp hb
      simp [he]
    · simp only [hj, if_false, Option.map_id']
      rfl
  · rename_i hnew
    have hnone := find?_eq_none_of_get? (by simpa using hnew)
    rw [get?, Table.find?_insert m (k, a) hnone]
    by_cases hj : j = k
    · simp [hj]
    · simp only [hj, if_false]
      rfl

theorem get?_set_self : (m.set k a).get? k = some a := by rw [get?_set, if_pos rfl]

theorem get?_set_of_ne {j : κ} (hj : j ≠ k) : (m.set k a).get? j = m.get? j := by
  rw [get?_set, if_neg hj]

theorem get?_delete (j : κ) : (m.delete k).get? j = if j = k then none else m.get? j := by
  rw [get?, delete, Table.find?_delete]
  by_cases hj : j = k <;> simp [hj, get?]

theorem get?_deleteWhere (p : κ × α → Bool) (j : κ) :
    (m.deleteWhere p).get? j = (m.get? j).filter fun a => ! p (j, a) := by
  rw [get?, deleteWhere, Table.find?_deleteWhere, get?]
  cases h : m.find? j with
  | none => rfl
  | some e =>
      obtain ⟨-, rfl⟩ := Table.find?_eq_some.mp h
      by_cases hp : p e <;> simp [Option.filter, hp]

theorem size_set : (m.set k a).size = m.size + if (m.get? k).isSome then 0 else 1 := by
  unfold set
  split
  · simp [size, Table.update]
  · rename_i hnew
    have hnone := find?_eq_none_of_get? (by simpa using hnew)
    have hfresh : k ∉ m.rows.map Prod.fst := by
      intro hmem
      obtain ⟨e, he, rfl⟩ := List.mem_map.mp hmem
      have hfound := Table.find?_eq_some.mpr ⟨he, rfl⟩
      cases hnone.symm.trans hfound
    simp [size, Table.insert, hfresh]

theorem size_delete_le : (m.delete k).size ≤ m.size := List.length_filter_le _ _

/-- Without the first entry. -/
theorem size_delete_head {e : κ × α} {rest : List (κ × α)} (hrows : m.rows = e :: rest) :
    (m.delete e.1).size < m.size := by
  simp only [size, delete, Table.delete, hrows, List.filter_cons, ne_eq, not_true, decide_false,
    Bool.false_eq_true, if_false, List.length_cons]
  exact Nat.lt_succ_of_le (List.length_filter_le _ _)

/-! ### Room -/

variable {m k a} {max : ℕ}

theorem get?_of_delete {j : κ} (h : (m.delete j).get? k = some a) :
    k ≠ j ∧ m.get? k = some a := by
  rw [get?_delete] at h
  split at h
  · cases h
  · rename_i hne
    exact ⟨hne, h⟩

theorem get?_of_evict (h : (m.evict max).get? k = some a) : m.get? k = some a := by
  unfold evict at h
  split at h
  · split at h
    · exact (get?_of_delete h).2
    · exact h
  · exact h

theorem size_evict (hpos : 0 < max) (h : m.size ≤ max) : (m.evict max).size < max := by
  unfold evict
  split
  · rename_i hfull
    split
    · rename_i first rest hrows
      exact Nat.lt_of_lt_of_le (size_delete_head m hrows) h
    · rename_i hrows
      rw [size, hrows] at hfull
      exact absurd hfull (Nat.not_le_of_lt hpos)
  · rename_i hroom
    exact Nat.lt_of_not_le hroom

end Dictionary

end AfkClient

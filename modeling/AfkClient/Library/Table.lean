import Mathlib.Data.List.Nodup
import Mathlib.Data.Nat.Notation

/-! Database tables: rows with a unique key. -/

namespace AfkClient

/-- The rows of a table in their order; no two of them have the same key. -/
structure Table {κ ρ : Type*} (key : ρ → κ) where
  rows : List ρ
  nodup : (rows.map key).Nodup

namespace Table

variable {κ ρ : Type*} [DecidableEq κ] {key : ρ → κ}

instance [DecidableEq ρ] : DecidableEq (Table key) := fun t u =>
  decidable_of_iff (t.rows = u.rows) ⟨fun h => by cases t; cases u; congr, fun h => h ▸ rfl⟩

def empty : Table key := ⟨[], List.nodup_nil⟩

def find? (t : Table key) (k : κ) : Option ρ := t.rows.find? (key · = k)

def count (t : Table key) (p : ρ → Bool) : ℕ := t.rows.countP p

/-- The row of the key is changed; the change keeps keys. -/
def update (t : Table key) (k : κ) (f : ρ → ρ) (hf : ∀ r, key (f r) = key r) : Table key where
  rows := t.rows.map fun r => if key r = k then f r else r
  nodup := by
    have hkeys : (t.rows.map fun r => if key r = k then f r else r).map key = t.rows.map key := by
      rw [List.map_map]
      apply List.map_congr_left
      intro r _
      simp only [Function.comp]
      split
      · exact hf r
      · rfl
    rw [hkeys]
    exact t.nodup

def delete (t : Table key) (k : κ) : Table key where
  rows := t.rows.filter (key · ≠ k)
  nodup := t.nodup.sublist (List.filter_sublist.map key)

def deleteWhere (t : Table key) (p : ρ → Bool) : Table key where
  rows := t.rows.filter (! p ·)
  nodup := t.nodup.sublist (List.filter_sublist.map key)

/-- Every row is changed; the change keeps keys. -/
def updateAll (t : Table key) (f : ρ → ρ) (hf : ∀ r, key (f r) = key r) : Table key where
  rows := t.rows.map f
  nodup := by
    rw [List.map_map, show key ∘ f = key from funext hf]
    exact t.nodup

/-- A new row goes to the end; a row whose key exists is refused. -/
def insert (t : Table key) (r : ρ) : Table key :=
  if h : key r ∈ t.rows.map key then t
  else
    { rows := t.rows ++ [r]
      nodup := by
        rw [List.map_append, List.nodup_append]
        refine ⟨t.nodup, by simp, ?_⟩
        rintro k hk _ hr rfl
        simp only [List.map_cons, List.map_nil, List.mem_singleton] at hr
        exact h (hr ▸ hk) }

/-! ### Rows after an operation -/

theorem find?_eq_some {t : Table key} {k : κ} {r : ρ} : t.find? k = some r ↔ r ∈ t.rows ∧ key r = k := by
  constructor
  · intro h
    exact ⟨List.mem_of_find?_eq_some h, by simpa using List.find?_some h⟩
  · rintro ⟨hr, rfl⟩
    obtain ⟨rows, hnodup⟩ := t
    simp only [find?]
    induction rows with
    | nil => simp at hr
    | cons s rows ih =>
        simp only [List.map_cons, List.nodup_cons] at hnodup
        by_cases hs : key s = key r
        · rcases List.mem_cons.mp hr with rfl | hr
          · simp
          · exact absurd (hs ▸ List.mem_map_of_mem hr) hnodup.1
        · rcases List.mem_cons.mp hr with rfl | hr
          · exact absurd rfl hs
          · rw [List.find?_cons_of_neg (by simpa using hs)]
            exact ih hnodup.2 hr

variable (t : Table key) (k : κ)

theorem mem_update {t : Table key} {f : ρ → ρ} {hf : ∀ r, key (f r) = key r} {s : ρ} :
    s ∈ (t.update k f hf).rows ↔ ∃ r ∈ t.rows, (if key r = k then f r else r) = s :=
  List.mem_map

theorem find?_update (f : ρ → ρ) (hf : ∀ r, key (f r) = key r) (j : κ) :
    (t.update k f hf).find? j = (t.find? j).map fun r => if j = k then f r else r := by
  cases h : t.find? j with
  | none =>
      rw [Option.map_none]
      simp only [find?, List.find?_eq_none, decide_eq_true_eq] at h ⊢
      intro s hs
      obtain ⟨r, hr, rfl⟩ := (mem_update k).mp hs
      split
      · rw [hf]
        exact h r hr
      · exact h r hr
  | some r =>
      obtain ⟨hr, rfl⟩ := find?_eq_some.mp h
      refine find?_eq_some.mpr ⟨(mem_update k).mpr ⟨r, hr, rfl⟩, ?_⟩
      split
      · exact hf r
      · rfl

theorem find?_delete (j : κ) :
    (t.delete k).find? j = if j = k then none else t.find? j := by
  by_cases hj : j = k
  · rw [if_pos hj]
    simp only [find?, delete, List.find?_eq_none, List.mem_filter]
    rintro r ⟨-, hr⟩ heq
    simp_all
  · rw [if_neg hj]
    cases h : t.find? j with
    | none =>
        simp only [find?, delete, List.find?_eq_none] at h ⊢
        exact fun r hr => h r (List.mem_of_mem_filter hr)
    | some r =>
        obtain ⟨hr, rfl⟩ := find?_eq_some.mp h
        exact find?_eq_some.mpr ⟨List.mem_filter.mpr ⟨hr, by simpa using hj⟩, rfl⟩

theorem find?_deleteWhere (p : ρ → Bool) (j : κ) :
    (t.deleteWhere p).find? j = (t.find? j).filter (! p ·) := by
  apply Option.ext
  intro r
  rw [find?_eq_some, Option.filter_eq_some_iff, find?_eq_some]
  simp only [deleteWhere, List.mem_filter]
  tauto

theorem find?_updateAll (f : ρ → ρ) (hf : ∀ r, key (f r) = key r) (j : κ) :
    (t.updateAll f hf).find? j = (t.find? j).map f := by
  have hkey : ((decide <| key · = j) ∘ f) = (decide <| key · = j) :=
    funext fun r => by simp only [Function.comp, hf r]
  rw [find?, find?, updateAll, List.find?_map, hkey]

theorem insert_of_find? {t : Table key} {r s : ρ} (h : t.find? (key r) = some s) :
    t.insert r = t := by
  obtain ⟨hs, hkey⟩ := find?_eq_some.mp h
  exact dif_pos (List.mem_map.mpr ⟨s, hs, hkey⟩)

theorem find?_insert (r : ρ) (h : t.find? (key r) = none) (j : κ) :
    (t.insert r).find? j = if j = key r then some r else t.find? j := by
  have hnew : key r ∉ t.rows.map key := by
    simp only [find?, List.find?_eq_none, decide_eq_true_eq] at h
    simpa using h
  rw [insert, dif_neg hnew]
  simp only [find?, List.find?_append]
  by_cases hj : j = key r
  · subst hj
    have hnone : t.rows.find? (key · = key r) = none := h
    simp [hnone]
  · have hother : ¬key r = j := fun heq => hj heq.symm
    simp [hj, hother]

/-! ### Counting -/

/-- How many rows of the key, one at most, are counted. -/
def countAt (k : κ) (p : ρ → Bool) : ℕ := (t.find? k).toList.countP p

theorem find?_tail {r : ρ} {rows : List ρ} (h : key r ∉ rows.map key) (hk : key r = k) :
    rows.find? (key · = k) = none := by
  rw [List.find?_eq_none]
  intro s hs hkey
  refine h (List.mem_map.mpr ⟨s, hs, ?_⟩)
  rw [hk]
  simpa using hkey

theorem count_delete (p : ρ → Bool) : (t.delete k).count p + t.countAt k p = t.count p := by
  obtain ⟨rows, hnodup⟩ := t
  simp only [count, countAt, delete, find?]
  induction rows with
  | nil => simp
  | cons r rows ih =>
      simp only [List.map_cons, List.nodup_cons] at hnodup
      have hrest := ih hnodup.2
      by_cases hr : key r = k
      · rw [find?_tail k hnodup.1 hr] at hrest
        rw [List.filter_cons_of_neg (by simpa using hr), List.find?_cons_of_pos (by simpa using hr)]
        simp only [Option.toList_some, Option.toList_none, List.countP_nil, List.countP_cons] at hrest ⊢
        omega
      · rw [List.filter_cons_of_pos (by simpa using hr), List.find?_cons_of_neg (by simpa using hr)]
        simp only [List.countP_cons]
        omega

theorem count_update (f : ρ → ρ) (hf : ∀ r, key (f r) = key r) (p : ρ → Bool) :
    (t.update k f hf).count p + t.countAt k p = t.count p + t.countAt k (p ∘ f) := by
  obtain ⟨rows, hnodup⟩ := t
  simp only [count, countAt, update, find?]
  induction rows with
  | nil => simp
  | cons r rows ih =>
      simp only [List.map_cons, List.nodup_cons] at hnodup
      have hrest := ih hnodup.2
      by_cases hr : key r = k
      · rw [find?_tail k hnodup.1 hr] at hrest
        rw [List.find?_cons_of_pos (by simpa using hr)]
        simp only [Option.toList_some, Option.toList_none, List.countP_nil, List.map_cons, if_pos hr,
          List.countP_cons, Function.comp] at hrest ⊢
        omega
      · rw [List.find?_cons_of_neg (by simpa using hr)]
        simp only [List.map_cons, if_neg hr, List.countP_cons]
        omega

end Table

end AfkClient

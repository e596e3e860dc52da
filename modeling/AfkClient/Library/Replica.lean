import Mathlib.Data.List.Basic
import Mathlib.Logic.Function.Basic

/-! A store and its copy. Every write goes to the store first; what the copy has yet to follow
stands in a log. The copy may take writes out of turn where the ones before them agree. -/

namespace AfkClient

structure Replica (κ α : Type*) where
  store : κ → α
  copy : κ → α
  /-- The writes that the copy has not taken, in the order of the store. -/
  log : List (κ × α)

namespace Replica

open Function (update)

variable {κ α : Type*} [DecidableEq κ]

/-- The last write of the key that the copy has not taken. -/
def last? (log : List (κ × α)) (k : κ) : Option α :=
  ((log.filter (·.1 = k)).getLast?).map Prod.snd

/-- With the writes of its log, the copy is like the store. -/
def Synced (r : Replica κ α) : Prop := ∀ k, r.store k = (last? r.log k).getD (r.copy k)

theorem last?_append (log log' : List (κ × α)) (k : κ) :
    last? (log ++ log') k = (last? log' k).or (last? log k) := by
  simp only [last?, List.filter_append, List.getLast?_append, Option.map_or]

theorem last?_singleton (k j : κ) (a : α) :
    last? [(j, a)] k = if j = k then some a else none := by
  by_cases h : j = k
  · simp [last?, h]
  · simp [last?, h]

/-- A copy that has taken everything is like the store. -/
theorem Synced.same {r : Replica κ α} (h : r.Synced) (hlog : r.log = []) : r.copy = r.store := by
  funext k
  rw [h k, hlog]
  rfl

theorem Synced.write {r : Replica κ α} (h : r.Synced) (k : κ) (a : α) :
    Synced ⟨update r.store k a, r.copy, r.log ++ [(k, a)]⟩ := by
  intro j
  rw [last?_append, last?_singleton]
  by_cases hj : k = j
  · subst hj
    simp
  · simpa [hj, Function.update_of_ne (Ne.symm hj)] using h j

/-- The copy takes a write; the writes of the key in front of it agree with it. -/
theorem Synced.take {store copy : κ → α} {before after : List (κ × α)} {k : κ} {a : α}
    (h : Synced ⟨store, copy, before ++ (k, a) :: after⟩) (hbefore : ∀ b, (k, b) ∈ before → b = a) :
    Synced ⟨store, update copy k a, before ++ after⟩ := by
  intro j
  have hj : store j = (last? (before ++ (k, a) :: after) j).getD (copy j) := h j
  show store j = (last? (before ++ after) j).getD (update copy k a j)
  rw [hj, ← List.singleton_append, last?_append, last?_append, last?_append, last?_singleton]
  by_cases hkey : k = j
  · subst hkey
    rw [if_pos rfl, Function.update_self]
    cases last? after k with
    | some b => rfl
    | none =>
        cases hlast : last? before k with
        | none => rfl
        | some b =>
            obtain ⟨entry, hentry, rfl⟩ := Option.map_eq_some_iff.mp hlast
            have hmem := List.mem_of_getLast? hentry
            rw [List.mem_filter, decide_eq_true_eq] at hmem
            obtain ⟨hmem, rfl⟩ := hmem
            simp [hbefore entry.2 hmem]
  · rw [if_neg hkey, Function.update_of_ne (Ne.symm hkey)]
    cases last? after j <;> rfl

end Replica

end AfkClient

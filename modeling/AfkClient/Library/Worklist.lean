import Mathlib.Algebra.Order.BigOperators.Group.List
import Mathlib.Algebra.Ring.Nat
import Mathlib.Data.List.Basic

/-! A loop over a stack of pending nodes that leaves at the first node it rejects. Where the
children of a node are smaller than the node, the loop accepts exactly the nodes from which
only accepted nodes are reached. -/

namespace AfkClient.Worklist

variable {α : Type*} (visit : α → Option (List α))

/-- The loop; `visit` yields the children of a node, or rejects it. The top of the stack is
the head, and the last child is pushed last. -/
def explore : ℕ → List α → Bool
  | _, [] => true
  | 0, _ :: _ => false
  | fuel + 1, a :: rest =>
      match visit a with
      | none => false
      | some children => explore fuel (children.reverse ++ rest)

/-- The node is not rejected, nor is any node below it. -/
inductive Accepted : α → Prop where
  | node {a : α} {children : List α} (hvisit : visit a = some children)
      (hchildren : ∀ c ∈ children, Accepted c) : Accepted a

variable {visit}

theorem Accepted.children {a : α} {children : List α} (h : Accepted visit a)
    (hvisit : visit a = some children) : ∀ c ∈ children, Accepted visit c := by
  cases h with
  | node hvisit' hchildren =>
      obtain rfl := Option.some.inj (hvisit'.symm.trans hvisit)
      exact hchildren

theorem explore_iff (size : α → ℕ)
    (hsize : ∀ a children, visit a = some children → (children.map size).sum < size a)
    {fuel : ℕ} {stack : List α} (hfuel : (stack.map size).sum ≤ fuel) :
    explore visit fuel stack ↔ ∀ a ∈ stack, Accepted visit a := by
  induction fuel generalizing stack with
  | zero =>
      cases stack with
      | nil => simp [explore]
      | cons a rest =>
          simp only [explore, Bool.false_eq_true, false_iff]
          intro h
          cases h a (by simp) with
          | node hvisit hchildren =>
              have := hsize a _ hvisit
              simp only [List.map_cons, List.sum_cons] at hfuel
              omega
  | succ fuel ih =>
      cases stack with
      | nil => simp [explore]
      | cons a rest =>
          cases hvisit : visit a with
          | none =>
              simp only [explore, hvisit, Bool.false_eq_true, false_iff]
              intro h
              cases h a (by simp) with
              | node hvisit' _ => cases hvisit.symm.trans hvisit'
          | some children =>
              have hless := hsize a children hvisit
              have hstack : ((children.reverse ++ rest).map size).sum ≤ fuel := by
                simp only [List.map_cons, List.sum_cons] at hfuel
                simp only [List.map_append, List.map_reverse, List.sum_append, List.sum_reverse]
                omega
              simp only [explore, hvisit, ih hstack, List.mem_append, List.mem_reverse]
              constructor
              · intro h b hb
                rcases List.mem_cons.mp hb with rfl | hb
                · exact .node hvisit fun c hc => h c (.inl hc)
                · exact h b (.inr hb)
              · rintro h b (hb | hb)
                · exact (h a (by simp)).children hvisit b hb
                · exact h b (by simp [hb])

end AfkClient.Worklist

import Mathlib.Data.Nat.Notation
import Mathlib.Data.List.Basic

/-! Readers of a buffer. A reader moves an offset through the buffer or fails. -/

namespace AfkClient

variable {σ ε α β : Type}

/-- Readers that fail with `ε`. -/
abbrev Reader (ε α : Type) := StateT ℕ (Except ε) α

namespace Reader

/-- Where the buffer goes on with the word, the reader takes the word and yields the value. -/
def Reads (buffer : List σ) (x : Reader ε α) (word : List σ) (a : α) : Prop :=
  ∀ offset rest, buffer.drop offset = word ++ rest → x offset = .ok (a, offset + word.length)

variable {buffer : List σ} {x : Reader ε α} {f : α → Reader ε β} {word more : List σ} {a : α} {b : β}

theorem bind_run {offset next : ℕ} (h : x offset = .ok (a, next)) : (x >>= f) offset = f a next := by
  show (x offset >>= fun result => f result.1 result.2) = _
  rw [h]
  rfl

theorem bind_ok {offset : ℕ} {r : β × ℕ} (h : (x >>= f) offset = .ok r) :
    ∃ a next, x offset = .ok (a, next) ∧ f a next = .ok r := by
  change (x offset >>= fun result => f result.1 result.2) = _ at h
  cases hx : x offset with
  | error e =>
      rw [hx] at h
      cases h
  | ok result =>
      rw [hx] at h
      exact ⟨result.1, result.2, rfl, h⟩

theorem liftM_ok {y : Except ε α} {offset : ℕ} {r : α × ℕ}
    (h : (liftM y : Reader ε α) offset = .ok r) : y = .ok r.1 := by
  cases y with
  | error e => cases h
  | ok a =>
      cases h
      rfl

/-- One value for each item. -/
theorem length_mapM {g : α → Except ε β} {items : List α} {values : List β}
    (h : items.mapM g = .ok values) : values.length = items.length := by
  induction items generalizing values with
  | nil =>
      rw [List.mapM_nil] at h
      cases h
      rfl
  | cons item items ih =>
      rw [List.mapM_cons] at h
      cases hitem : g item with
      | error e => simp [hitem, bind, Except.bind] at h
      | ok value =>
          cases hitems : items.mapM g with
          | error e => simp [hitem, hitems, bind, Except.bind] at h
          | ok rest =>
              simp only [hitem, hitems, bind, Except.bind] at h
              cases h
              simp [ih hitems]

theorem drop_next {offset : ℕ} {rest : List σ} (h : buffer.drop offset = word ++ rest) :
    buffer.drop (offset + word.length) = rest := by
  rw [← List.drop_drop, h, List.drop_left]

theorem reads_pure : Reads buffer (pure a : Reader ε α) [] a := fun _ _ _ => rfl

theorem Reads.bind (hx : Reads buffer x word a) (hf : Reads buffer (f a) more b) :
    Reads buffer (x >>= f) (word ++ more) b := by
  intro offset rest h
  rw [List.append_assoc] at h
  rw [bind_run (hx offset _ h), hf _ rest (drop_next h), List.length_append, Nat.add_assoc]

theorem Reads.map (g : α → β) (hx : Reads buffer x word a) : Reads buffer (g <$> x) word (g a) := by
  have h := hx.bind (f := fun a => pure (g a)) reads_pure
  rwa [List.append_nil, bind_pure_comp] at h

/-- The same reader as often as there are values. -/
theorem reads_mapM {values : List α} {spell : α → List σ} (h : ∀ v, Reads buffer x (spell v) v) :
    Reads buffer ((List.range values.length).mapM fun _ => x) (values.flatMap spell) values := by
  suffices hmany : ∀ (indices : List ℕ) (values : List α), indices.length = values.length →
      Reads buffer (indices.mapM fun _ => x) (values.flatMap spell) values from
    hmany _ _ List.length_range
  intro indices
  induction indices with
  | nil =>
      intro values hlen
      rw [List.length_eq_zero_iff.mp hlen.symm]
      exact reads_pure
  | cons i indices ih =>
      intro values hlen
      cases values with
      | nil => cases hlen
      | cons v values =>
          rw [List.mapM_cons, List.flatMap_cons]
          refine (h v).bind ?_
          have hrest := Reads.bind (f := fun tail => pure (v :: tail))
            (ih values (Nat.succ.inj hlen)) reads_pure
          rwa [List.append_nil] at hrest

/-- A computation for each index of a list, that yields what stands there. -/
theorem mapM_range {values : List α} {compute : ℕ → Except ε α}
    (h : ∀ i (hi : i < values.length), compute i = .ok values[i]) :
    (List.range values.length).mapM compute = .ok values := by
  induction values generalizing compute with
  | nil => rfl
  | cons v values ih =>
      rw [List.length_cons, List.range_succ_eq_map, List.mapM_cons, h 0 (Nat.succ_pos _),
        List.mapM_map]
      have hrest := @ih (compute ∘ Nat.succ) fun i hi => h (i + 1) (Nat.succ_lt_succ hi)
      show (List.mapM (compute ∘ Nat.succ) (List.range values.length) >>= fun rest =>
        Except.ok (v :: rest)) = _
      rw [hrest]
      rfl

end Reader

end AfkClient

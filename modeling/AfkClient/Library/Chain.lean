import Mathlib.Data.List.Basic
import Mathlib.Logic.Function.Basic

/-! Tasks that take over from each other. Every key has a chain of tasks, and a new task
waits for the one that was the current task of its key when it came. -/

namespace AfkClient

inductive Stage where
  | waiting | running | ended
  deriving DecidableEq, Repr

/-- A task; its predecessor is told by its place. -/
structure Link (κ : Type*) where
  key : κ
  previous : Option ℕ
  stage : Stage := .waiting

structure Chain (κ : Type*) where
  links : List (Link κ) := []
  current : κ → Option ℕ := fun _ => none

namespace Chain

variable {κ : Type*} [DecidableEq κ]

def append (c : Chain κ) (key : κ) : Chain κ where
  links := c.links ++ [{ key := key, previous := c.current key }]
  current := Function.update c.current key (some c.links.length)

def setStage (c : Chain κ) (k : ℕ) (stage : Stage) : Chain κ :=
  { c with links := c.links.modify k fun l => { l with stage := stage } }

/-- A task that ends is no longer current. -/
def finish (c : Chain κ) (k : ℕ) (key : κ) : Chain κ where
  links := (c.setStage k .ended).links
  current := if c.current key = some k then Function.update c.current key none else c.current

/-- What can happen to the tasks. -/
inductive Step (c : Chain κ) : Chain κ → Prop where
  | append (key : κ) : Step c (c.append key)
  | start {k : ℕ} {l : Link κ} (hl : c.links[k]? = some l) (hwaiting : l.stage = .waiting)
      (hprevious : ∀ p, l.previous = some p → ∃ q : Link κ, c.links[p]? = some q ∧ q.stage = .ended) :
      Step c (c.setStage k .running)
  | finish {k : ℕ} {l : Link κ} (hl : c.links[k]? = some l) (hrunning : l.stage = .running) :
      Step c (c.finish k l.key)

/-- Nothing that came before a running task still goes on, and only the predecessor and
what came before it may go on before a waiting one. -/
structure Ordered (c : Chain κ) : Prop where
  started : ∀ (i j : ℕ) (a b : Link κ), c.links[i]? = some a → c.links[j]? = some b → a.key = b.key → i < j →
    b.stage ≠ .waiting → a.stage = .ended
  queued : ∀ (i j : ℕ) (a b : Link κ), c.links[i]? = some a → c.links[j]? = some b → a.key = b.key → i < j →
    b.stage = .waiting → a.stage = .ended ∨ ∃ p, b.previous = some p ∧ i ≤ p
  previous : ∀ (j : ℕ) (b : Link κ) (p : ℕ), c.links[j]? = some b → b.previous = some p →
    p < j ∧ ∃ q : Link κ, c.links[p]? = some q ∧ q.key = b.key
  latest : ∀ (j : ℕ) (b : Link κ), c.links[j]? = some b → b.stage ≠ .ended →
    ∃ k, c.current b.key = some k ∧ j ≤ k
  current : ∀ key k, c.current key = some k → ∃ l : Link κ, c.links[k]? = some l ∧ l.key = key

omit [DecidableEq κ] in
theorem ordered_empty : Ordered ({} : Chain κ) :=
  ⟨by simp, by simp, by simp, by simp, by simp⟩

variable {c : Chain κ}

omit [DecidableEq κ] in
/-- Of the tasks of one key, at most one is running. -/
theorem Ordered.exclusive (h : c.Ordered) {i j : ℕ} {a b : Link κ} (ha : c.links[i]? = some a)
    (hb : c.links[j]? = some b) (hkey : a.key = b.key) (hi : a.stage = .running)
    (hj : b.stage = .running) : i = j := by
  rcases Nat.lt_trichotomy i j with hlt | heq | hgt
  · have hended := h.started i j a b ha hb hkey hlt (by simp [hj])
    simp [hi] at hended
  · exact heq
  · have hended := h.started j i b a hb ha hkey.symm hgt (by simp [hi])
    simp [hj] at hended

theorem getElem?_append_new {c : Chain κ} {key : κ} {j : ℕ} {b : Link κ}
    (hb : (c.append key).links[j]? = some b) :
    c.links[j]? = some b ∨ j = c.links.length ∧ b = { key := key, previous := c.current key } := by
  rcases Nat.lt_trichotomy j c.links.length with hlt | heq | hgt
  · left
    rwa [append, List.getElem?_append_left hlt] at hb
  · right
    subst heq
    rw [append, List.getElem?_concat_length] at hb
    exact ⟨rfl, (Option.some.inj hb).symm⟩
  · rw [append, List.getElem?_eq_none (by simp; omega)] at hb
    cases hb

theorem getElem?_append_old {c : Chain κ} {key : κ} {j : ℕ} {b : Link κ}
    (hb : c.links[j]? = some b) : (c.append key).links[j]? = some b := by
  have hlt := (List.getElem?_eq_some_iff.mp hb).1
  rw [append, List.getElem?_append_left hlt, hb]

theorem Ordered.append (h : c.Ordered) (key : κ) : (c.append key).Ordered := by
  have hold {j : ℕ} {b : Link κ} (hb : c.links[j]? = some b) : j < c.links.length :=
    (List.getElem?_eq_some_iff.mp hb).1
  constructor
  · intro i j a b ha hb hkey hij hwaiting
    rcases getElem?_append_new hb with hb | ⟨rfl, rfl⟩
    · rcases getElem?_append_new ha with ha | ⟨rfl, rfl⟩
      · exact h.started i j a b ha hb hkey hij hwaiting
      · have := hold hb
        omega
    · exact absurd rfl hwaiting
  · intro i j a b ha hb hkey hij hwaiting
    rcases getElem?_append_new hb with hb | ⟨rfl, rfl⟩
    · rcases getElem?_append_new ha with ha | ⟨rfl, rfl⟩
      · exact h.queued i j a b ha hb hkey hij hwaiting
      · have := hold hb
        omega
    · rcases getElem?_append_new ha with ha | ⟨rfl, rfl⟩
      · by_cases hended : a.stage = .ended
        · exact .inl hended
        · right
          obtain ⟨k, hk, hik⟩ := h.latest i a ha hended
          exact ⟨k, by rw [← hk, hkey], hik⟩
      · omega
  · intro j b p hb hp
    rcases getElem?_append_new hb with hb | ⟨rfl, rfl⟩
    · obtain ⟨hlt, q, hq, hkey⟩ := h.previous j b p hb hp
      exact ⟨hlt, q, getElem?_append_old hq, hkey⟩
    · obtain ⟨l, hl, hkey⟩ := h.current key p hp
      exact ⟨hold hl, l, getElem?_append_old hl, hkey⟩
  · intro j b hb hended
    rcases getElem?_append_new hb with hb | ⟨rfl, rfl⟩
    · obtain ⟨k, hk, hjk⟩ := h.latest j b hb hended
      by_cases hkey : b.key = key
      · exact ⟨c.links.length, by simp [Chain.append, hkey], Nat.le_of_lt (hold hb)⟩
      · exact ⟨k, by simpa [Chain.append, hkey] using hk, hjk⟩
    · exact ⟨c.links.length, by simp [Chain.append], Nat.le_refl _⟩
  · intro key' k hk
    by_cases hkey : key' = key
    · subst hkey
      obtain rfl : c.links.length = k := by simpa [Chain.append] using hk
      exact ⟨{ key := key', previous := c.current key' }, by simp [Chain.append], rfl⟩
    · obtain ⟨l, hl, hkey'⟩ := h.current key' k (by simpa [Chain.append, hkey] using hk)
      exact ⟨l, getElem?_append_old hl, hkey'⟩

omit [DecidableEq κ] in
theorem getElem?_setStage {k j : ℕ} {stage : Stage} {b : Link κ}
    (hb : (c.setStage k stage).links[j]? = some b) : ∃ a, c.links[j]? = some a ∧
      b = { a with stage := if j = k then stage else a.stage } := by
  rw [setStage, List.getElem?_modify] at hb
  obtain ⟨a, ha, rfl⟩ := Option.map_eq_some_iff.mp hb
  refine ⟨a, ha, ?_⟩
  by_cases hj : j = k
  · simp [hj]
  · simp [hj, Ne.symm hj]

omit [DecidableEq κ] in
theorem getElem?_setStage_old {k j : ℕ} {stage : Stage} {a : Link κ} (ha : c.links[j]? = some a) :
    (c.setStage k stage).links[j]? =
      some { a with stage := if j = k then stage else a.stage } := by
  rw [setStage, List.getElem?_modify, ha]
  by_cases hj : j = k
  · simp [hj]
  · simp [hj, Ne.symm hj]

omit [DecidableEq κ] in
theorem Ordered.start (h : c.Ordered) {k : ℕ} {l : Link κ} (hl : c.links[k]? = some l)
    (hwaiting : l.stage = .waiting)
    (hprevious : ∀ p, l.previous = some p → ∃ q, c.links[p]? = some q ∧ q.stage = .ended) :
    (c.setStage k .running).Ordered := by
  constructor
  · intro i j a' b' ha' hb' hkey hij hstage
    obtain ⟨a, ha, rfl⟩ := getElem?_setStage ha'
    obtain ⟨b, hb, rfl⟩ := getElem?_setStage hb'
    have hended : a.stage = .ended := by
      by_cases hj : j = k
      · subst hj
        obtain rfl := Option.some.inj (hb.symm.trans hl)
        rcases h.queued i j a b ha hb hkey hij hwaiting with hended | ⟨p, hp, hip⟩
        · exact hended
        · obtain ⟨q, hq, hqended⟩ := hprevious p hp
          rcases Nat.lt_or_eq_of_le hip with hlt | rfl
          · obtain ⟨-, q', hq', hqkey⟩ := h.previous j b p hb hp
            obtain rfl := Option.some.inj (hq.symm.trans hq')
            exact h.started i p a q ha hq (hkey.trans hqkey.symm) hlt (by simp [hqended])
          · obtain rfl := Option.some.inj (ha.symm.trans hq)
            exact hqended
      · exact h.started i j a b ha hb hkey hij (by simpa [hj] using hstage)
    have hi : i ≠ k := by
      rintro rfl
      obtain rfl := Option.some.inj (ha.symm.trans hl)
      simp [hwaiting] at hended
    simpa [hi] using hended
  · intro i j a' b' ha' hb' hkey hij hstage
    obtain ⟨a, ha, rfl⟩ := getElem?_setStage ha'
    obtain ⟨b, hb, rfl⟩ := getElem?_setStage hb'
    have hj : j ≠ k := by
      rintro rfl
      simp at hstage
    refine (h.queued i j a b ha hb hkey hij (by simpa [hj] using hstage)).imp_left fun hended => ?_
    have hi : i ≠ k := by
      rintro rfl
      obtain rfl := Option.some.inj (ha.symm.trans hl)
      simp [hwaiting] at hended
    simpa [hi] using hended
  · intro j b' p hb' hp
    obtain ⟨b, hb, rfl⟩ := getElem?_setStage hb'
    obtain ⟨hlt, q, hq, hkey⟩ := h.previous j b p hb hp
    exact ⟨hlt, _, getElem?_setStage_old hq, hkey⟩
  · intro j b' hb' hended
    obtain ⟨b, hb, rfl⟩ := getElem?_setStage hb'
    refine h.latest j b hb fun hstage => hended ?_
    by_cases hj : j = k
    · subst hj
      obtain rfl := Option.some.inj (hb.symm.trans hl)
      simp [hwaiting] at hstage
    · simpa [hj] using hstage
  · intro key k' hk
    obtain ⟨l', hl', hkey⟩ := h.current key k' hk
    exact ⟨_, getElem?_setStage_old hl', hkey⟩

theorem Ordered.finish (h : c.Ordered) {k : ℕ} {l : Link κ} (hl : c.links[k]? = some l)
    (hrunning : l.stage = .running) : (c.finish k l.key).Ordered := by
  have hstays {j : ℕ} {a : Link κ} (hended : a.stage = .ended) :
      (if j = k then Stage.ended else a.stage) = .ended := by
    simp [hended]
  constructor
  · intro i j a' b' ha' hb' hkey hij hstage
    obtain ⟨a, ha, rfl⟩ := getElem?_setStage ha'
    obtain ⟨b, hb, rfl⟩ := getElem?_setStage hb'
    refine hstays (h.started i j a b ha hb hkey hij fun hwaiting => hstage ?_)
    have hj : j ≠ k := by
      rintro rfl
      obtain rfl := Option.some.inj (hb.symm.trans hl)
      simp [hrunning] at hwaiting
    simpa [hj] using hwaiting
  · intro i j a' b' ha' hb' hkey hij hstage
    obtain ⟨a, ha, rfl⟩ := getElem?_setStage ha'
    obtain ⟨b, hb, rfl⟩ := getElem?_setStage hb'
    have hj : j ≠ k := by
      rintro rfl
      simp at hstage
    exact (h.queued i j a b ha hb hkey hij (by simpa [hj] using hstage)).imp_left hstays
  · intro j b' p hb' hp
    obtain ⟨b, hb, rfl⟩ := getElem?_setStage hb'
    obtain ⟨hlt, q, hq, hkey⟩ := h.previous j b p hb hp
    exact ⟨hlt, _, getElem?_setStage_old hq, hkey⟩
  · intro j b' hb' hended
    obtain ⟨b, hb, rfl⟩ := getElem?_setStage hb'
    have hj : j ≠ k := by
      rintro rfl
      simp at hended
    obtain ⟨k', hk', hle⟩ := h.latest j b hb (by simpa [hj] using hended)
    refine ⟨k', ?_, hle⟩
    have hkept : ¬(c.current l.key = some k ∧ b.key = l.key) := by
      rintro ⟨hcurrent, hkey⟩
      obtain rfl : k' = k := by
        rw [hkey, hcurrent] at hk'
        exact (Option.some.inj hk').symm
      -- Everything in front of a running task has ended.
      have hgone := h.started j k' b l hb hl hkey (by omega) (by simp [hrunning])
      exact hended (by simpa [hj] using hgone)
    simp only [Chain.finish]
    split
    · rename_i hcurrent
      have hkey : b.key ≠ l.key := fun hkey => hkept ⟨hcurrent, hkey⟩
      simpa [hkey] using hk'
    · exact hk'
  · intro key k' hk
    have hk : c.current key = some k' := by
      simp only [Chain.finish] at hk
      split at hk
      · by_cases hkey : key = l.key
        · simp [hkey] at hk
        · simpa [hkey] using hk
      · exact hk
    obtain ⟨l', hl', hkey⟩ := h.current key k' hk
    exact ⟨_, getElem?_setStage_old hl', hkey⟩

theorem Ordered.step (h : c.Ordered) {c' : Chain κ} (hs : c.Step c') : c'.Ordered := by
  cases hs with
  | append key => exact h.append key
  | start hl hwaiting hprevious => exact h.start hl hwaiting hprevious
  | finish hl hrunning => exact h.finish hl hrunning

end Chain

end AfkClient

import Mathlib.Data.Nat.Notation
import Mathlib.Data.List.Basic

/-! Backtracking regular expressions with capture groups. The matches at a position
are listed in the order of preference, so the first one is the one a backtracking
engine reports. -/

namespace AfkClient

/-- Expressions over characters; a set of characters is given by its test. -/
inductive Re where
  | eps
  | set (p : Char → Bool)
  | seq (r s : Re)
  | alt (r s : Re)
  | star (greedy : Bool) (r : Re)
  | group (n : ℕ) (r : Re)
  | bos
  | eos
  | boundary

namespace Re

/-- A position in a text: what was read, latest character first, what is left, and
the captured groups, latest first. -/
structure Cursor where
  before : List Char
  after : List Char
  groups : List (ℕ × List Char) := []
  deriving DecidableEq, Repr

/-- The text last captured by group `n`. -/
def Cursor.group? (c : Cursor) (n : ℕ) : Option (List Char) := c.groups.lookup n

/-- The ASCII word characters. -/
def isWord (c : Char) : Bool := c.isAlphanum || c == '_'

/-- A word boundary lies between two neighbours of which exactly one is a word character. -/
def Cursor.atBoundary (c : Cursor) : Bool := c.before.head?.any isWord != c.after.head?.any isWord

/-- Repetition of `f`; an iteration that reads nothing is rejected, so `fuel` never
needs to exceed the number of characters left. -/
def iterate (greedy : Bool) (f : Cursor → List Cursor) : ℕ → Cursor → List Cursor
  | 0, c => [c]
  | fuel + 1, c =>
      let more := (f c).flatMap fun d =>
        if d.after.length < c.after.length then iterate greedy f fuel d else []
      if greedy then more ++ [c] else c :: more

/-- All matches that start at the cursor, the preferred one first. -/
def matchesAt : Re → Cursor → List Cursor
  | eps, c => [c]
  | set p, c =>
      match c.after with
      | [] => []
      | x :: xs => if p x then [{ c with before := x :: c.before, after := xs }] else []
  | seq r s, c => (r.matchesAt c).flatMap s.matchesAt
  | alt r s, c => r.matchesAt c ++ s.matchesAt c
  | star greedy r, c => iterate greedy r.matchesAt c.after.length c
  | group n r, c =>
      (r.matchesAt c).map fun d =>
        let text := (d.before.take (d.before.length - c.before.length)).reverse
        { d with groups := (n, text) :: d.groups }
  | bos, c => if c.before.isEmpty then [c] else []
  | eos, c => if c.after.isEmpty then [c] else []
  | boundary, c => if c.atBoundary then [c] else []

/-- The leftmost match at or behind a position. -/
def searchFrom (r : Re) (before : List Char) : List Char → Option Cursor
  | [] => (r.matchesAt ⟨before, [], []⟩).head?
  | x :: xs => (r.matchesAt ⟨before, x :: xs, []⟩).head?.or (searchFrom r (x :: before) xs)

def exec (r : Re) (text : List Char) : Option Cursor := r.searchFrom [] text

def test (r : Re) (text : List Char) : Bool := (r.exec text).isSome

/-- What group `n` captured in the leftmost match. -/
def capture (r : Re) (n : ℕ) (text : List Char) : Option (List Char) :=
  (r.exec text).bind (·.group? n)

/-! ### Derived expressions -/

def seqs (rs : List Re) : Re := rs.foldr seq eps

def oneOf : List Re → Re
  | [] => set fun _ => false
  | [r] => r
  | r :: rs => alt r (oneOf rs)

def opt (r : Re) : Re := alt r eps

def many (r : Re) : Re := star true r

def some1 (r : Re) : Re := seq r (many r)

/-- `r` at least `low` and at most `low + extra` times. -/
def times (low extra : ℕ) (r : Re) : Re :=
  seqs (List.replicate low r ++ [Nat.rec eps (fun _ rest => opt (seq r rest)) extra])

/-- The characters of `text`, letter case respected. -/
def lit (text : String) : Re := seqs (text.toList.map fun c => set (· == c))

/-- The characters of `text`, the case of ASCII letters ignored. -/
def ilit (text : String) : Re := seqs (text.toList.map fun c => set (·.toLower == c.toLower))

def digit : Re := set Char.isDigit

def word : Re := set isWord

/-! ### Rules

The matches of an expression, as members of the list it yields. -/

/-- The cursor behind `text`, where `rest` is left. -/
def Cursor.skip (c : Cursor) (text rest : List Char) : Cursor :=
  { c with before := text.reverse ++ c.before, after := rest }

variable {c d : Cursor} {r s : Re} {p : Char → Bool}

attribute [local simp] matchesAt

@[simp] theorem mem_eps : d ∈ eps.matchesAt c ↔ d = c := by simp

theorem mem_set : d ∈ (set p).matchesAt c ↔
    ∃ x rest, c.after = x :: rest ∧ p x ∧ d = c.skip [x] rest := by
  cases c with
  | mk before after groups =>
      cases after with
      | nil => simp
      | cons x rest => by_cases hx : p x <;> simp [hx, Cursor.skip]

theorem mem_seq : d ∈ (seq r s).matchesAt c ↔ ∃ e ∈ r.matchesAt c, d ∈ s.matchesAt e := by
  simp

theorem mem_alt : d ∈ (alt r s).matchesAt c ↔ d ∈ r.matchesAt c ∨ d ∈ s.matchesAt c := by
  simp

theorem mem_eos : d ∈ eos.matchesAt c ↔ c.after = [] ∧ d = c := by
  simp only [matchesAt]
  split <;> simp_all

theorem mem_group {n : ℕ} : d ∈ (group n r).matchesAt c ↔ ∃ e ∈ r.matchesAt c,
    d = { e with groups := (n, (e.before.take (e.before.length - c.before.length)).reverse) :: e.groups } := by
  simp only [matchesAt, List.mem_map]
  exact exists_congr fun e => and_congr_right fun _ => eq_comm

theorem Cursor.skip_nil (c : Cursor) : c.skip [] c.after = c := rfl

theorem Cursor.skip_skip (c : Cursor) (text text' rest rest' : List Char) :
    (c.skip text rest).skip text' rest' = c.skip (text ++ text') rest' := by
  simp [Cursor.skip]

/-- One character after the other, each in its set. -/
theorem mem_seqs_set {α : Type*} {q : α → Char → Bool} {text : List α} :
    d ∈ (seqs (text.map fun a => set (q a))).matchesAt c ↔
      ∃ word rest, c.after = word ++ rest ∧ List.Forall₂ (fun a x => q a x) text word ∧
        d = c.skip word rest := by
  induction text generalizing c with
  | nil =>
      constructor
      · intro h
        exact ⟨[], c.after, rfl, .nil, mem_eps.mp h⟩
      · rintro ⟨word, rest, hsplit, hword, rfl⟩
        cases hword
        rw [List.nil_append] at hsplit
        subst hsplit
        exact mem_eps.mpr rfl
  | cons a text ih =>
      change d ∈ (seq (set (q a)) (seqs (text.map fun a => set (q a)))).matchesAt c ↔ _
      rw [mem_seq]
      constructor
      · rintro ⟨e, he, hd⟩
        obtain ⟨x, rest, hsplit, hx, rfl⟩ := mem_set.mp he
        obtain ⟨word, rest', hsplit', hword, rfl⟩ := ih.mp hd
        refine ⟨x :: word, rest', ?_, .cons hx hword, c.skip_skip [x] word rest rest'⟩
        rw [hsplit, List.cons_append]
        exact congrArg _ hsplit'
      · rintro ⟨word, rest, hsplit, hword, rfl⟩
        cases hword with
        | @cons _ x _ word hx hword =>
            exact ⟨c.skip [x] (word ++ rest), mem_set.mpr ⟨x, _, hsplit, hx, rfl⟩,
              ih.mpr ⟨word, rest, rfl, hword, (c.skip_skip [x] word _ rest).symm⟩⟩

/-- Two characters that differ at most in the case of an ASCII letter. -/
def sameLetter (a x : Char) : Bool := x.toLower == a.toLower

theorem mem_ilit {text : String} : d ∈ (ilit text).matchesAt c ↔
    ∃ word rest, c.after = word ++ rest ∧
      List.Forall₂ (fun a x => sameLetter a x) text.toList word ∧ d = c.skip word rest :=
  mem_seqs_set (q := sameLetter)

theorem mem_iterate_succ {greedy : Bool} {f : Cursor → List Cursor} {fuel : ℕ} :
    d ∈ iterate greedy f (fuel + 1) c ↔
      d = c ∨ ∃ e ∈ f c, e.after.length < c.after.length ∧ d ∈ iterate greedy f fuel e := by
  have hmore : (d ∈ (f c).flatMap fun e =>
      if e.after.length < c.after.length then iterate greedy f fuel e else []) ↔
        ∃ e ∈ f c, e.after.length < c.after.length ∧ d ∈ iterate greedy f fuel e := by
    simp only [List.mem_flatMap]
    refine exists_congr fun e => and_congr_right fun _ => ?_
    by_cases hlt : e.after.length < c.after.length <;> simp [hlt]
  rw [← hmore]
  cases greedy with
  | false => simp [iterate]
  | true => simp [iterate, or_comm]

theorem mem_iterate_set {greedy : Bool} {fuel : ℕ} (hfuel : c.after.length ≤ fuel) :
    d ∈ iterate greedy (set p).matchesAt fuel c ↔
      ∃ word rest, c.after = word ++ rest ∧ (∀ x ∈ word, p x) ∧ d = c.skip word rest := by
  induction fuel generalizing c with
  | zero =>
      have hnil : c.after = [] := List.eq_nil_of_length_eq_zero (Nat.le_zero.mp hfuel)
      constructor
      · intro h
        have hd : d = c := by simpa [iterate] using h
        exact ⟨[], c.after, rfl, by simp, hd⟩
      · rintro ⟨word, rest, hsplit, -, rfl⟩
        obtain ⟨rfl, rfl⟩ := List.append_eq_nil_iff.mp (hsplit.symm.trans hnil)
        have hd : c.skip [] [] = c := hnil ▸ c.skip_nil
        simp [iterate, hd]
  | succ fuel ih =>
      rw [mem_iterate_succ]
      constructor
      · rintro (rfl | ⟨e, he, hlt, hd⟩)
        · exact ⟨[], d.after, rfl, by simp, rfl⟩
        · obtain ⟨x, rest, hsplit, hx, rfl⟩ := mem_set.mp he
          have hrest : (c.skip [x] rest).after.length ≤ fuel := by omega
          obtain ⟨word, rest', hsplit', hword, rfl⟩ := (ih hrest).mp hd
          refine ⟨x :: word, rest', ?_, by simpa [hx] using hword, c.skip_skip [x] word rest rest'⟩
          rw [hsplit, List.cons_append]
          exact congrArg _ hsplit'
      · rintro ⟨word, rest, hsplit, hword, rfl⟩
        cases word with
        | nil =>
            rw [List.nil_append] at hsplit
            subst hsplit
            exact .inl rfl
        | cons x word =>
            have hlt : (c.skip [x] (word ++ rest)).after.length < c.after.length := by
              simp [hsplit, Cursor.skip]
            refine .inr ⟨c.skip [x] (word ++ rest),
              mem_set.mpr ⟨x, _, hsplit, hword x (by simp), rfl⟩, hlt, ?_⟩
            refine (ih (by omega)).mpr ⟨word, rest, rfl, fun y hy => hword y (by simp [hy]), ?_⟩
            exact (c.skip_skip [x] word _ rest).symm

/-- A run of characters of one set. -/
theorem mem_many_set : d ∈ (many (set p)).matchesAt c ↔
    ∃ word rest, c.after = word ++ rest ∧ (∀ x ∈ word, p x) ∧ d = c.skip word rest :=
  mem_iterate_set (Nat.le_refl _)

theorem Cursor.skip_captured (c : Cursor) (text rest : List Char) :
    ((c.skip text rest).before.take ((c.skip text rest).before.length - c.before.length)).reverse
      = text := by
  have hlength : (c.skip text rest).before.length - c.before.length = text.reverse.length := by
    simp [Cursor.skip]
  rw [hlength, Cursor.skip, List.take_left, List.reverse_reverse]

/-- The text of a nonempty run, captured. -/
theorem mem_group_some1_set {n : ℕ} : d ∈ (group n (some1 (set p))).matchesAt c ↔
    ∃ word rest, word ≠ [] ∧ c.after = word ++ rest ∧ (∀ x ∈ word, p x) ∧
      d = { c.skip word rest with groups := (n, word) :: c.groups } := by
  rw [mem_group]
  constructor
  · rintro ⟨e, he, rfl⟩
    obtain ⟨e', he', he⟩ := mem_seq.mp he
    obtain ⟨x, rest, hsplit, hx, rfl⟩ := mem_set.mp he'
    obtain ⟨word, rest', hsplit', hword, rfl⟩ := mem_many_set.mp he
    refine ⟨x :: word, rest', by simp, ?_, by simpa [hx] using hword, ?_⟩
    · rw [hsplit, List.cons_append]
      exact congrArg _ hsplit'
    · rw [Cursor.skip_skip, Cursor.skip_captured]
      rfl
  · rintro ⟨word, rest, hne, hsplit, hword, rfl⟩
    cases word with
    | nil => exact absurd rfl hne
    | cons x word =>
        refine ⟨c.skip (x :: word) rest, mem_seq.mpr ⟨c.skip [x] (word ++ rest), ?_, ?_⟩, ?_⟩
        · exact mem_set.mpr ⟨x, _, hsplit, hword x (by simp), rfl⟩
        · exact mem_many_set.mpr ⟨word, rest, rfl, fun y hy => hword y (by simp [hy]),
            (c.skip_skip [x] word _ rest).symm⟩
        · rw [Cursor.skip_captured]
          rfl

theorem searchFrom_bos {before text : List Char} (h : before ≠ []) :
    searchFrom (seq bos r) before text = none := by
  induction text generalizing before with
  | nil => simp [searchFrom, h]
  | cons x text ih => simp [searchFrom, h, ih (List.cons_ne_nil x before)]

/-- An expression that begins with `^` matches at the begin only. -/
theorem exec_bos (text : List Char) :
    (seq bos r).exec text = (r.matchesAt ⟨[], text, []⟩).head? := by
  unfold exec
  cases text with
  | nil => simp [searchFrom]
  | cons x text => simp [searchFrom, searchFrom_bos (List.cons_ne_nil x [])]

/-- What `^` and an expression capture, if all its matches agree. -/
theorem capture_bos {n : ℕ} {text word : List Char}
    (hall : ∀ d ∈ r.matchesAt ⟨[], text, []⟩, d.group? n = some word) :
    (seq bos r).capture n text = if r.matchesAt ⟨[], text, []⟩ = [] then none else some word := by
  rw [capture, exec_bos]
  cases hlist : r.matchesAt ⟨[], text, []⟩ with
  | nil => rfl
  | cons e rest => simpa using hall e (by simp [hlist])

end Re

end AfkClient

import AfkClient.Library.RegexLanguage

/-! What an expression without anchors finds: the leftmost place where it matches, and there the
match a greedy engine prefers. Rules for the preferred match follow the expression. -/

namespace AfkClient.Re

variable {c d e : Cursor} {r s : Re} {p : Char → Bool}

/-! ### The preferred match -/

/-- From cursor `c` the match reported first ends at `d`. -/
def Prefers (r : Re) (c d : Cursor) : Prop := (r.matchesAt c).head? = some d

theorem Prefers.mem (h : Prefers r c d) : d ∈ r.matchesAt c := List.mem_of_head? h

theorem prefers_eps (c : Cursor) : Prefers eps c c := rfl

theorem prefers_eos (h : c.after = []) : Prefers eos c c := by
  simp [Prefers, matchesAt, h]

theorem prefers_set {x : Char} {rest : List Char} (h : c.after = x :: rest) (hx : p x = true) :
    Prefers (set p) c (c.skip [x] rest) := by
  simp [Prefers, matchesAt, h, hx, Cursor.skip]

theorem Prefers.seq (h : Prefers r c d) (h' : Prefers s d e) : Prefers (seq r s) c e := by
  unfold Prefers at h h' ⊢
  cases hr : r.matchesAt c with
  | nil => simp [hr] at h
  | cons f fs =>
      obtain rfl : f = d := by simpa [hr] using h
      simp [matchesAt, hr, h']

theorem Prefers.group {n : ℕ} {word : List Char} (h : Prefers r c d) (hread : Reads c d word) :
    Prefers (group n r) c { d with groups := (n, word) :: d.groups } := by
  unfold Prefers at h ⊢
  simp [matchesAt, h, hread.captured]

/-- Beyond the characters that are left, more fuel changes nothing. -/
theorem iterate_fuel {greedy : Bool} {f : Cursor → List Cursor} {fuel fuel' : ℕ}
    (h : c.after.length ≤ fuel) (h' : c.after.length ≤ fuel') :
    iterate greedy f fuel c = iterate greedy f fuel' c := by
  induction fuel generalizing fuel' c with
  | zero =>
      have hnone : ∀ d : Cursor, ¬ d.after.length < c.after.length := fun d => by omega
      cases fuel' with
      | zero => rfl
      | succ fuel' => cases greedy <;> simp [iterate, hnone]
  | succ fuel ih =>
      have hmore : ∀ fuel', c.after.length ≤ fuel' + 1 → ∀ d : Cursor,
          (if d.after.length < c.after.length then iterate greedy f fuel d else []) =
            if d.after.length < c.after.length then iterate greedy f fuel' d else [] := by
        intro fuel' h' d
        by_cases hlt : d.after.length < c.after.length
        · rw [if_pos hlt, if_pos hlt]
          exact ih (by omega) (by omega)
        · rw [if_neg hlt, if_neg hlt]
      cases fuel' with
      | zero =>
          have hnone : ∀ d : Cursor, ¬ d.after.length < c.after.length := fun d => by omega
          cases greedy <;> simp [iterate, hnone]
      | succ fuel' =>
          have hequal := funext (hmore fuel' h')
          simp only [iterate, hequal]

/-- A greedy repetition takes one more round where it can. -/
theorem Prefers.round (h : Prefers r c d) (hlt : d.after.length < c.after.length)
    (h' : Prefers (many r) d e) : Prefers (many r) c e := by
  unfold Prefers at h h' ⊢
  obtain ⟨fuel, hfuel⟩ : ∃ n, c.after.length = n + 1 := ⟨c.after.length - 1, by omega⟩
  have hrest : iterate true r.matchesAt fuel d = (many r).matchesAt d :=
    iterate_fuel (by omega) le_rfl
  cases hr : r.matchesAt c with
  | nil => simp [hr] at h
  | cons f fs =>
      obtain rfl : f = d := by simpa [hr] using h
      have hround : iterate true r.matchesAt (fuel + 1) c =
          (f :: fs).flatMap (fun d => if d.after.length < c.after.length then
            iterate true r.matchesAt fuel d else []) ++ [c] := by
        simp only [iterate, hr, if_true]
      change (iterate true r.matchesAt c.after.length c).head? = some e
      rw [hfuel, hround, List.flatMap_cons, if_pos hlt, hrest, List.append_assoc,
        List.head?_append, h']
      rfl

theorem prefers_many_nil (h : r.matchesAt c = []) : Prefers (many r) c c := by
  change (iterate true r.matchesAt c.after.length c).head? = some c
  cases c.after.length <;> simp [iterate, h]

/-! ### Rules for a text that goes on with `rest` -/

/-- In front of `rest`, the preferred match reads `word`. -/
def Passes (r : Re) (word rest : List Char) : Prop :=
  ∀ c : Cursor, c.after = word ++ rest → Prefers r c (c.skip word rest)

theorem passes_eps (rest : List Char) : Passes eps [] rest := by
  intro c hc
  obtain rfl : c.after = rest := hc
  exact prefers_eps c

theorem passes_set {x : Char} (hx : p x = true) (rest : List Char) : Passes (set p) [x] rest :=
  fun _ hc => prefers_set hc hx

theorem Passes.seq {word word' rest : List Char} (h : Passes r word (word' ++ rest))
    (h' : Passes s word' rest) : Passes (seq r s) (word ++ word') rest := by
  intro c hc
  rw [List.append_assoc] at hc
  have hnext := h' (c.skip word (word' ++ rest)) rfl
  rw [Cursor.skip_skip] at hnext
  exact (h c hc).seq hnext

theorem Passes.round {word word' rest : List Char} (h : Passes r word (word' ++ rest))
    (hne : word ≠ []) (h' : Passes (many r) word' rest) :
    Passes (many r) (word ++ word') rest := by
  intro c hc
  rw [List.append_assoc] at hc
  have hnext := h' (c.skip word (word' ++ rest)) rfl
  rw [Cursor.skip_skip] at hnext
  refine (h c hc).round ?_ hnext
  have hpos := List.length_pos_of_ne_nil hne
  rw [hc, @List.length_append _ word]
  change (word' ++ rest).length < _
  omega

theorem passes_many_nil {rest : List Char} (h : ∀ c : Cursor, c.after = rest → r.matchesAt c = []) :
    Passes (many r) [] rest := by
  intro c hc
  obtain rfl : c.after = rest := hc
  exact prefers_many_nil (h c rfl)

/-- A greedy run of characters of one set goes on as far as they stand there. -/
theorem passes_many_set {word rest : List Char} (hword : ∀ x ∈ word, p x = true)
    (hrest : ∀ x ∈ rest.head?, p x = false) : Passes (many (set p)) word rest := by
  induction word with
  | nil =>
      apply passes_many_nil
      intro c hc
      cases rest with
      | nil => simp [matchesAt, hc]
      | cons x rest => simp [matchesAt, hc, hrest x (by simp)]
  | cons x word ih =>
      have hmore := ih fun y hy => hword y (by simp [hy])
      exact (passes_set (hword x (by simp)) (word ++ rest)).round (by simp) hmore

theorem passes_some1_set {word rest : List Char} (hne : word ≠ [])
    (hword : ∀ x ∈ word, p x = true) (hrest : ∀ x ∈ rest.head?, p x = false) :
    Passes (some1 (set p)) word rest := by
  cases word with
  | nil => exact absurd rfl hne
  | cons x word =>
      have hmore : Passes (many (set p)) word rest :=
        passes_many_set (fun y hy => hword y (by simp [hy])) hrest
      exact (passes_set (hword x (by simp)) (word ++ rest)).seq hmore

theorem passes_seqs_set {α : Type*} {q : α → Char → Bool} {text : List α} {word : List Char}
    (hword : List.Forall₂ (fun a x => q a x) text word) (rest : List Char) :
    Passes (seqs (text.map fun a => set (q a))) word rest := by
  induction hword with
  | nil => exact passes_eps rest
  | @cons a x text word hx _ ih => exact (passes_set hx (word ++ rest)).seq ih

theorem passes_lit (text : String) (rest : List Char) : Passes (lit text) text.toList rest := by
  refine passes_seqs_set (q := fun a x => x == a) ?_ rest
  exact List.forall₂_same.mpr fun x _ => beq_self_eq_true x

theorem passes_ilit {text : String} {word : List Char}
    (hword : List.Forall₂ (fun a x => sameLetter a x) text.toList word) (rest : List Char) :
    Passes (ilit text) word rest :=
  passes_seqs_set (q := sameLetter) hword rest

theorem passes_alt_left {word rest : List Char} (h : Passes r word rest) :
    Passes (alt r s) word rest := by
  intro c hc
  have hfirst := h c hc
  unfold Prefers at hfirst ⊢
  rw [matchesAt, List.head?_append, hfirst]
  rfl

theorem passes_alt_right {word rest : List Char} (h : Passes s word rest)
    (hnone : ∀ c : Cursor, c.after = word ++ rest → r.matchesAt c = []) :
    Passes (alt r s) word rest := by
  intro c hc
  rw [Prefers, matchesAt, hnone c hc, List.nil_append]
  exact h c hc

theorem passes_opt {word rest : List Char} (h : Passes r word rest) : Passes (opt r) word rest :=
  passes_alt_left h

theorem passes_opt_nil {rest : List Char} (h : ∀ c : Cursor, c.after = rest → r.matchesAt c = []) :
    Passes (opt r) [] rest :=
  passes_alt_right (passes_eps rest) h

theorem matchesAt_seqs_append (rs rs' : List Re) (c : Cursor) :
    (seqs (rs ++ rs')).matchesAt c = ((seqs rs).matchesAt c).flatMap (seqs rs').matchesAt := by
  induction rs generalizing c with
  | nil => simp [seqs, matchesAt]
  | cons r rs ih =>
      change (r.matchesAt c).flatMap (seqs (rs ++ rs')).matchesAt =
        ((r.matchesAt c).flatMap (seqs rs).matchesAt).flatMap (seqs rs').matchesAt
      rw [List.flatMap_assoc]
      exact List.flatMap_congr fun d _ => ih d

/-- What a group captures between two parts of an expression. -/
theorem Passes.capture {before after : List Re} {n : ℕ} {front word back rest : List Char}
    (hbefore : Passes (seqs before) front (word ++ (back ++ rest)))
    (hword : Passes r word (back ++ rest)) (hafter : Passes (seqs after) back rest)
    (hc : c.after = front ++ (word ++ (back ++ rest))) :
    ∃ d, Prefers (seqs (before ++ group n r :: after)) c d ∧ d.group? n = some word := by
  have hfront := hbefore c hc
  have hgroup := (hword (c.skip front (word ++ (back ++ rest))) rfl).group (n := n) ⟨rfl, rfl⟩
  have hback := hafter ⟨word.reverse ++ (front.reverse ++ c.before), back ++ rest,
    (n, word) :: c.groups⟩ rfl
  have hlast := hgroup.seq hback
  refine ⟨Cursor.skip ⟨word.reverse ++ (front.reverse ++ c.before), back ++ rest,
    (n, word) :: c.groups⟩ back rest, ?_, List.lookup_cons_self⟩
  unfold Prefers at hfront hlast ⊢
  rw [matchesAt_seqs_append]
  cases hr : (seqs before).matchesAt c with
  | nil => simp [hr] at hfront
  | cons f fs =>
      rw [hr, List.head?_cons, Option.some.injEq] at hfront
      rw [List.flatMap_cons, List.head?_append, hfront]
      change (Option.or (((Re.seq (Re.group n r) (seqs after)).matchesAt _).head?) _) = _
      rw [hlast]
      rfl

/-! ### Lazy runs -/

/-- A lazy run of characters is as short as what follows allows. -/
theorem head?_lazy {f : Cursor → List Cursor} {word rest : List Char} {fuel : ℕ}
    (hc : c.after = word ++ rest) (hfuel : c.after.length ≤ fuel) (hword : ∀ x ∈ word, p x = true)
    (hfail : ∀ a y b, word = a ++ y :: b → f (c.skip a (y :: (b ++ rest))) = [])
    (hlast : (f (c.skip word rest)).head? = some d) :
    ((iterate false (set p).matchesAt fuel c).flatMap f).head? = some d := by
  induction word generalizing c fuel with
  | nil =>
      obtain rfl : c.after = rest := hc
      have hmore : ∃ more, iterate false (set p).matchesAt fuel c = c :: more := by
        cases fuel with
        | zero => exact ⟨[], rfl⟩
        | succ fuel => exact ⟨_, rfl⟩
      obtain ⟨more, hmore⟩ := hmore
      rw [hmore, List.flatMap_cons, List.head?_append]
      rw [Cursor.skip_nil] at hlast
      rw [hlast]
      rfl
  | cons x word ih =>
      have hlength : c.after.length = (word ++ rest).length + 1 := by
        rw [hc, List.cons_append, List.length_cons]
      obtain ⟨fuel, rfl⟩ : ∃ n, fuel = n + 1 := ⟨fuel - 1, by omega⟩
      have hfirst : f c = [] := by
        have hnone := hfail [] x word rfl
        rwa [← List.cons_append, ← hc, Cursor.skip_nil] at hnone
      have hstep : (set p).matchesAt c = [c.skip [x] (word ++ rest)] := by
        have hx := hword x (by simp)
        simp [matchesAt, hc, hx, Cursor.skip]
      have hround : iterate false (set p).matchesAt (fuel + 1) c =
          c :: iterate false (set p).matchesAt fuel (c.skip [x] (word ++ rest)) := by
        have hlt : (c.skip [x] (word ++ rest)).after.length < c.after.length := by
          change (word ++ rest).length < _
          omega
        simp only [iterate, hstep, List.flatMap_cons, List.flatMap_nil, List.append_nil, if_pos hlt]
        rfl
      rw [hround, List.flatMap_cons, hfirst, List.nil_append]
      apply ih rfl
      · change (word ++ rest).length ≤ fuel
        omega
      · exact fun y hy => hword y (by simp [hy])
      · intro a y b hsplit
        have hnone := hfail (x :: a) y b (by rw [hsplit, List.cons_append])
        rwa [← List.singleton_append, ← Cursor.skip_skip c [x] a (word ++ rest)] at hnone
      · rwa [Cursor.skip_skip]

/-- A lazy run that is captured. -/
theorem prefers_lazy {n : ℕ} {word rest : List Char} (hc : c.after = word ++ rest)
    (hword : ∀ x ∈ word, p x = true)
    (hfail : ∀ a y b, word = a ++ y :: b → ∀ e : Cursor, e.after = y :: (b ++ rest) →
      s.matchesAt e = [])
    (hlast : Prefers s ⟨word.reverse ++ c.before, rest, (n, word) :: c.groups⟩ d) :
    Prefers (seq (group n (star false (set p))) s) c d := by
  have hmatches : (seq (group n (star false (set p))) s).matchesAt c =
      (iterate false (set p).matchesAt c.after.length c).flatMap fun e => s.matchesAt
        { e with groups := (n, (e.before.take (e.before.length - c.before.length)).reverse) ::
            e.groups } := by
    simp only [matchesAt, List.flatMap_map]
  unfold Prefers at hlast ⊢
  rw [hmatches]
  refine head?_lazy hc le_rfl hword ?_ ?_
  · intro a y b hsplit
    exact hfail a y b hsplit _ rfl
  · rw [Cursor.skip_captured]
    exact hlast

/-! ### The leftmost match -/

/-- The earliest place of a text where something stands that `At` describes. -/
inductive First {α : Type*} (At : List Char → α → Prop) : List Char → α → Prop where
  | here {text : List Char} {a : α} (h : At text a) : First At text a
  | later {x : Char} {text : List Char} {a : α} (h : ∀ b, ¬ At (x :: text) b)
      (rest : First At text a) : First At (x :: text) a

theorem First.exists_split {α : Type*} {At : List Char → α → Prop} {text : List Char} {a : α}
    (h : First At text a) : ∃ before after, text = before ++ after ∧ At after a := by
  induction h with
  | @here text a h => exact ⟨[], text, rfl, h⟩
  | @later x text a _ _ ih =>
      obtain ⟨before, after, rfl, h⟩ := ih
      exact ⟨x :: before, after, rfl, h⟩

/-- Where something stands, an earliest place exists. -/
theorem First.exists_of_split {α : Type*} {At : List Char → α → Prop} {after : List Char} {a : α}
    (h : At after a) (before : List Char) : ∃ b, First At (before ++ after) b := by
  induction before with
  | nil => exact ⟨a, .here h⟩
  | cons x before ih =>
      by_cases hhere : ∃ b, At (x :: (before ++ after)) b
      · obtain ⟨b, hb⟩ := hhere
        exact ⟨b, .here hb⟩
      · obtain ⟨b, hb⟩ := ih
        exact ⟨b, .later (fun b hb => hhere ⟨b, hb⟩) hb⟩

/-- Before an earliest place, nothing stands. -/
theorem First.exists_leftmost {α : Type*} {At : List Char → α → Prop} {text : List Char} {a : α}
    (h : First At text a) : ∃ before after, text = before ++ after ∧ At after a ∧
      ∀ before' after', text = before' ++ after' → before'.length < before.length →
        ∀ b, ¬ At after' b := by
  induction h with
  | @here text a h => exact ⟨[], text, rfl, h, fun _ _ _ hlt => absurd hlt (Nat.not_lt_zero _)⟩
  | @later x text a hnone _ ih =>
      obtain ⟨before, after, rfl, h, hleft⟩ := ih
      refine ⟨x :: before, after, rfl, h, ?_⟩
      intro before' after' hsplit hlt
      cases before' with
      | nil =>
          rw [List.nil_append] at hsplit
          exact hsplit ▸ hnone
      | cons y before' =>
          exact hleft before' after' (List.cons.inj hsplit).2 (Nat.lt_of_succ_lt_succ hlt)

/-- If the preferred match captures what `At` describes, and there is no match where it
describes nothing, then a search captures what stands at the earliest place. -/
theorem capture_first {n : ℕ} {At : List Char → List Char → Prop}
    (hat : ∀ before text word, At text word →
      ∃ d, Prefers r ⟨before, text, []⟩ d ∧ d.group? n = some word)
    (hmatch : ∀ before text, r.matchesAt ⟨before, text, []⟩ ≠ [] → ∃ word, At text word)
    (text word : List Char) : r.capture n text = some word ↔ First At text word := by
  have hnone : ∀ before text, (∀ b, ¬ At text b) → r.matchesAt ⟨before, text, []⟩ = [] := by
    intro before text h
    by_contra hne
    obtain ⟨b, hb⟩ := hmatch before text hne
    exact h b hb
  have hsearch : ∀ before, (r.searchFrom before text).bind (·.group? n) = some word ↔
      First At text word := by
    induction text with
    | nil =>
        intro before
        constructor
        · intro h
          obtain ⟨b, hb⟩ : ∃ b, At [] b := by
            apply hmatch before []
            intro hempty
            simp [searchFrom, hempty] at h
          obtain ⟨d, hd, hgroup⟩ := hat before [] b hb
          obtain rfl : b = word := by simpa [searchFrom, show _ = some d from hd, hgroup] using h
          exact .here hb
        · intro h
          cases h with
          | here h =>
              obtain ⟨d, hd, hgroup⟩ := hat before [] word h
              simp [searchFrom, show _ = some d from hd, hgroup]
    | cons x text ih =>
        intro before
        by_cases hhere : ∃ b, At (x :: text) b
        · obtain ⟨b, hb⟩ := hhere
          obtain ⟨d, hd, hgroup⟩ := hat before (x :: text) b hb
          have hleft : (r.searchFrom before (x :: text)).bind (·.group? n) = some b := by
            simp [searchFrom, show _ = some d from hd, hgroup]
          rw [hleft]
          constructor
          · intro h
            rw [Option.some.injEq] at h
            exact h ▸ .here hb
          · intro h
            cases h with
            | here h =>
                obtain ⟨d', hd', hgroup'⟩ := hat before (x :: text) word h
                rw [Prefers, show _ = some d from hd, Option.some.injEq] at hd'
                rw [← hgroup', ← hd', hgroup]
            | later h _ => exact absurd hb (h b)
        · have hrest : First At (x :: text) word ↔ First At text word := by
            constructor
            · intro h
              cases h with
              | here h => exact absurd ⟨word, h⟩ hhere
              | later _ h => exact h
            · exact .later fun b hb => hhere ⟨b, hb⟩
          rw [hrest, ← ih (x :: before)]
          simp [searchFrom, hnone before (x :: text) fun b hb => hhere ⟨b, hb⟩]
  exact hsearch []

/-- What may stand at the begin without `r` in front. -/
theorem exec_alt_bos (text : List Char) : (seq (alt bos r) s).exec text =
    (s.matchesAt ⟨[], text, []⟩).head?.or ((seq r s).exec text) := by
  have hbegin : (seq (alt bos r) s).matchesAt ⟨[], text, []⟩ =
      s.matchesAt ⟨[], text, []⟩ ++ (seq r s).matchesAt ⟨[], text, []⟩ := by
    simp [matchesAt]
  have hlater : ∀ text x before, (seq (alt bos r) s).searchFrom (x :: before) text =
      (seq r s).searchFrom (x :: before) text := by
    intro text
    induction text with
    | nil => simp [searchFrom, matchesAt]
    | cons y text ih => simp [searchFrom, matchesAt, ih]
  unfold exec
  cases text with
  | nil => simp [searchFrom, hbegin]
  | cons x text => simp [searchFrom, hbegin, hlater, Option.or_assoc]

/-! ### Tests without anchors at the ends -/

theorem searchFrom_isSome (text before : List Char) : (r.searchFrom before text).isSome = true ↔
    ∃ a b, text = a ++ b ∧ r.matchesAt ⟨a.reverse ++ before, b, []⟩ ≠ [] := by
  induction text generalizing before with
  | nil =>
      constructor
      · intro h
        refine ⟨[], [], rfl, ?_⟩
        rintro hempty
        simp [searchFrom, show r.matchesAt ⟨before, [], []⟩ = [] from hempty] at h
      · rintro ⟨a, b, htext, h⟩
        obtain ⟨rfl, rfl⟩ := List.nil_eq_append_iff.mp htext
        simpa [searchFrom] using h
  | cons x text ih =>
      rw [searchFrom, Option.isSome_or, Bool.or_eq_true, ih (x :: before)]
      constructor
      · rintro (h | ⟨a, b, rfl, h⟩)
        · exact ⟨[], x :: text, rfl, by simpa using h⟩
        · exact ⟨x :: a, b, rfl, by simpa using h⟩
      · rintro ⟨a, b, htext, h⟩
        cases a with
        | nil =>
            rw [List.nil_append] at htext
            exact .inl (by simpa [htext] using h)
        | cons y a =>
            rw [List.cons_append, List.cons.injEq] at htext
            obtain ⟨rfl, rfl⟩ := htext
            exact .inr ⟨a, b, rfl, by simpa using h⟩

/-- A test succeeds where the expression matches at some place of the text. -/
theorem test_iff (text : List Char) : r.test text = true ↔
    ∃ a b, text = a ++ b ∧ r.matchesAt ⟨a.reverse, b, []⟩ ≠ [] := by
  have hsearch := @searchFrom_isSome r text []
  simp only [List.append_nil] at hsearch
  exact hsearch

/-- Exactly one side of a place has a word character. -/
def Edge (a b : List Char) : Prop := a.getLast?.any isWord ≠ b.head?.any isWord

theorem mem_boundary : d ∈ boundary.matchesAt c ↔ c.atBoundary = true ∧ d = c := by
  simp only [matchesAt]
  split <;> simp_all

theorem atBoundary_iff (a b : List Char) (groups : List (ℕ × List Char)) :
    Cursor.atBoundary ⟨a.reverse, b, groups⟩ = true ↔ Edge a b := by
  simp [Cursor.atBoundary, Edge]

theorem matchesAt_ne_nil (hr : r.anchorless = true) : r.matchesAt c ≠ [] ↔
    ∃ word rest, c.after = word ++ rest ∧ word ∈ r.language := by
  constructor
  · intro h
    obtain ⟨d, hd⟩ := List.exists_mem_of_ne_nil _ h
    obtain ⟨word, hword, hread⟩ := matchesAt_sound hr c d hd
    exact ⟨word, d.after, hread.1, hword⟩
  · rintro ⟨word, rest, hsplit, hword⟩
    obtain ⟨d, hd, -⟩ := matchesAt_complete hr c rest word hword hsplit
    exact List.ne_nil_of_mem hd

/-- A test for a text that begins at a word boundary. -/
theorem test_boundary (hr : r.anchorless = true) (text : List Char) :
    (seq boundary r).test text = true ↔
      ∃ a word b, text = a ++ (word ++ b) ∧ word ∈ r.language ∧ Edge a (word ++ b) := by
  rw [test_iff]
  constructor
  · rintro ⟨a, b, rfl, h⟩
    obtain ⟨d, hd⟩ := List.exists_mem_of_ne_nil _ h
    obtain ⟨e, he, hde⟩ := mem_seq.mp hd
    obtain ⟨hedge, rfl⟩ := mem_boundary.mp he
    obtain ⟨word, rest, hsplit, hword⟩ := (matchesAt_ne_nil hr).mp (List.ne_nil_of_mem hde)
    change b = word ++ rest at hsplit
    rw [atBoundary_iff, hsplit] at hedge
    exact ⟨a, word, rest, by rw [hsplit], hword, hedge⟩
  · rintro ⟨a, word, b, rfl, hword, hedge⟩
    obtain ⟨d, hd⟩ := List.exists_mem_of_ne_nil _ ((matchesAt_ne_nil hr
      (c := ⟨a.reverse, word ++ b, []⟩)).mpr ⟨word, b, rfl, hword⟩)
    have hbegin := (atBoundary_iff a (word ++ b) []).mpr hedge
    exact ⟨a, word ++ b, rfl,
      List.ne_nil_of_mem (mem_seq.mpr ⟨_, mem_boundary.mpr ⟨hbegin, rfl⟩, hd⟩)⟩

/-- A test for a whole word. -/
theorem test_word (hr : r.anchorless = true) (text : List Char) :
    (seqs [boundary, r, boundary]).test text = true ↔
      ∃ a word b, text = a ++ (word ++ b) ∧ word ∈ r.language ∧
        Edge a (word ++ b) ∧ Edge (a ++ word) b := by
  rw [test_iff]
  constructor
  · rintro ⟨a, b, rfl, h⟩
    obtain ⟨d, hd⟩ := List.exists_mem_of_ne_nil _ h
    obtain ⟨e, he, hde⟩ := mem_seq.mp hd
    obtain ⟨f, hf, hdf⟩ := mem_seq.mp hde
    obtain ⟨g, hg, -⟩ := mem_seq.mp hdf
    obtain ⟨hedge, rfl⟩ := mem_boundary.mp he
    obtain ⟨hedge', -⟩ := mem_boundary.mp hg
    obtain ⟨word, hword, hafter, hbefore⟩ := matchesAt_sound hr _ f hf
    obtain ⟨before, after, groups⟩ := f
    obtain rfl : before = (a ++ word).reverse := by simpa using hbefore
    obtain rfl : b = word ++ after := hafter
    rw [atBoundary_iff] at hedge hedge'
    exact ⟨a, word, after, rfl, hword, hedge, hedge'⟩
  · rintro ⟨a, word, b, rfl, hword, hedge, hedge'⟩
    obtain ⟨f, hf, hafter, -, hbefore⟩ :=
      matchesAt_complete hr ⟨a.reverse, word ++ b, []⟩ b word hword rfl
    obtain ⟨before, after, groups⟩ := f
    obtain rfl : before = (a ++ word).reverse := by simpa using hbefore
    obtain rfl : after = b := hafter
    have hbegin := (atBoundary_iff a (word ++ after) []).mpr hedge
    have hclose := (atBoundary_iff (a ++ word) after groups).mpr hedge'
    have hlast := mem_seq.mpr ⟨_, mem_boundary.mpr ⟨hclose, rfl⟩, mem_eps.mpr rfl⟩
    exact ⟨a, word ++ after, rfl, List.ne_nil_of_mem
      (mem_seq.mpr ⟨_, mem_boundary.mpr ⟨hbegin, rfl⟩, mem_seq.mpr ⟨_, hf, hlast⟩⟩)⟩

/-- A test for a text at the begin, where what follows decides by what is left. -/
theorem test_begins {rs : List Re} {P : List Char → Prop} (h : ∀ r ∈ rs, r.anchorless = true)
    (hr : ∀ c : Cursor, r.matchesAt c ≠ [] ↔ P c.after) (text : List Char) :
    (seqs (bos :: (rs ++ [r]))).test text = true ↔
      ∃ word rest, text = word ++ rest ∧ word ∈ (seqs rs).language ∧ P rest := by
  have hanchorless : (seqs rs).anchorless = true := by
    induction rs with
    | nil => rfl
    | cons r rs ih =>
        change (r.anchorless && (seqs rs).anchorless) = true
        rw [h r (by simp), ih fun s hs => h s (by simp [hs])]
        rfl
  have htest : (seqs (bos :: (rs ++ [r]))).test text = true ↔
      (seqs (rs ++ [r])).matchesAt ⟨[], text, []⟩ ≠ [] := by
    change ((seq bos (seqs (rs ++ [r]))).exec text).isSome = true ↔ _
    rw [exec_bos]
    cases (seqs (rs ++ [r])).matchesAt ⟨[], text, []⟩ <;> simp
  rw [htest, matchesAt_seqs_append]
  constructor
  · intro hne
    obtain ⟨d, hd⟩ := List.exists_mem_of_ne_nil _ hne
    obtain ⟨e, he, hd⟩ := List.mem_flatMap.mp hd
    obtain ⟨f, hf, -⟩ := mem_seq.mp hd
    obtain ⟨word, hword, hread⟩ := matchesAt_sound hanchorless _ e he
    exact ⟨word, e.after, hread.1, hword, (hr e).mp (List.ne_nil_of_mem hf)⟩
  · rintro ⟨word, rest, rfl, hword, hrest⟩
    obtain ⟨e, he, rfl, -⟩ :=
      matchesAt_complete hanchorless ⟨[], word ++ rest, []⟩ rest word hword rfl
    obtain ⟨f, hf⟩ := List.exists_mem_of_ne_nil _ ((hr e).mpr hrest)
    exact List.ne_nil_of_mem (List.mem_flatMap.mpr ⟨e, he, mem_seq.mpr ⟨f, hf, mem_eps.mpr rfl⟩⟩)

end AfkClient.Re

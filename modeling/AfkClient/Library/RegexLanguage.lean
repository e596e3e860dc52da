import AfkClient.Library.Regex
import Mathlib.Computability.Language

/-! The texts an expression reads, as a language. An expression without anchors reads a text
wherever it stands; with anchors at both ends, a test is membership. -/

namespace AfkClient.Re

open Computability

/-! ### Languages -/

/-- The texts the expression reads; an anchor reads nothing. -/
def language : Re → Language Char
  | eps => 1
  | set p => {text | ∃ c, p c = true ∧ text = [c]}
  | seq r s => r.language * s.language
  | alt r s => r.language + s.language
  | star _ r => r.language∗
  | group _ r => r.language
  | bos | eos | boundary => 1

/-- Where the expression matches does not depend on what stands around the text. -/
def anchorless : Re → Bool
  | eps | set _ => true
  | seq r s | alt r s => r.anchorless && s.anchorless
  | star _ r | group _ r => r.anchorless
  | bos | eos | boundary => false

def groupless : Re → Bool
  | eps | set _ | bos | eos | boundary => true
  | seq r s | alt r s => r.groupless && s.groupless
  | star _ r => r.groupless
  | group _ _ => false

theorem mem_language_set {p : Char → Bool} {text : List Char} :
    text ∈ (set p).language ↔ ∃ c, p c = true ∧ text = [c] := Iff.rfl

theorem mem_language_seq {r s : Re} {text : List Char} : text ∈ (seq r s).language ↔
    ∃ a ∈ r.language, ∃ b ∈ s.language, a ++ b = text := Language.mem_mul

theorem mem_language_opt {r : Re} {text : List Char} :
    text ∈ (opt r).language ↔ text ∈ r.language ∨ text = [] := Iff.rfl

theorem mem_language_many_set {p : Char → Bool} {text : List Char} :
    text ∈ (many (set p)).language ↔ ∀ c ∈ text, p c = true := by
  constructor
  · rintro ⟨pieces, rfl, hpieces⟩ c hc
    obtain ⟨piece, hpiece, hc⟩ := List.mem_flatten.mp hc
    obtain ⟨d, hd, rfl⟩ := hpieces piece hpiece
    rwa [List.mem_singleton.mp hc]
  · intro h
    refine ⟨text.map fun c => [c], (List.flatMap_singleton' text).symm, ?_⟩
    intro piece hpiece
    obtain ⟨c, hc, rfl⟩ := List.mem_map.mp hpiece
    exact ⟨c, h c hc, rfl⟩

theorem mem_language_some1_set {p : Char → Bool} {text : List Char} :
    text ∈ (some1 (set p)).language ↔ text ≠ [] ∧ ∀ c ∈ text, p c = true := by
  rw [some1, mem_language_seq]
  constructor
  · rintro ⟨_, ⟨c, hc, rfl⟩, rest, hrest, rfl⟩
    rw [mem_language_many_set] at hrest
    simpa [hc] using hrest
  · rintro ⟨hne, h⟩
    cases text with
    | nil => exact absurd rfl hne
    | cons c rest =>
        exact ⟨[c], ⟨c, h c (by simp), rfl⟩, rest,
          mem_language_many_set.mpr fun d hd => h d (by simp [hd]), rfl⟩

theorem mem_language_seqs_nil {text : List Char} : text ∈ (seqs []).language ↔ text = [] :=
  Language.mem_one text

theorem mem_language_seqs_cons {r : Re} {rs : List Re} {text : List Char} :
    text ∈ (seqs (r :: rs)).language ↔
      ∃ a ∈ r.language, ∃ b ∈ (seqs rs).language, a ++ b = text := mem_language_seq

theorem mem_language_seqs_singleton {r : Re} {text : List Char} :
    text ∈ (seqs [r]).language ↔ text ∈ r.language := by
  change text ∈ r.language * 1 ↔ _
  rw [mul_one]

/-- A text of a sequence holds one of each of its parts. -/
theorem exists_part {r : Re} {rs : List Re} (hr : r ∈ rs) {text : List Char}
    (h : text ∈ (seqs rs).language) : ∃ word ∈ r.language, word ⊆ text := by
  induction rs generalizing text with
  | nil => cases hr
  | cons s rs ih =>
      obtain ⟨a, ha, b, hb, rfl⟩ := mem_language_seqs_cons.mp h
      rcases List.mem_cons.mp hr with rfl | hr
      · exact ⟨a, ha, List.subset_append_left a b⟩
      · obtain ⟨word, hword, hsub⟩ := ih hr hb
        exact ⟨word, hword, List.subset_append_of_subset_right a hsub⟩

theorem mem_language_seqs_pair {r s : Re} {text : List Char} : text ∈ (seqs [r, s]).language ↔
    ∃ a ∈ r.language, ∃ b ∈ s.language, a ++ b = text := by
  rw [mem_language_seqs_cons]
  simp only [mem_language_seqs_singleton]

/-- A number of characters of one set. -/
theorem mem_language_times_set {p : Char → Bool} {low extra : ℕ} {text : List Char} :
    text ∈ (times low extra (set p)).language ↔
      low ≤ text.length ∧ text.length ≤ low + extra ∧ ∀ c ∈ text, p c = true := by
  induction low generalizing text with
  | zero =>
      rw [times, List.replicate_zero, List.nil_append, mem_language_seqs_singleton]
      induction extra generalizing text with
      | zero =>
          constructor
          · rintro rfl
            simp
          · intro h
            exact List.eq_nil_of_length_eq_zero (by omega)
      | succ extra ih =>
          rw [mem_language_opt, mem_language_seq]
          constructor
          · rintro (⟨_, ⟨c, hc, rfl⟩, rest, hrest, rfl⟩ | rfl)
            · obtain ⟨-, hlength, hset⟩ := ih.mp hrest
              exact ⟨Nat.zero_le _, by simp; omega, by simpa [hc] using hset⟩
            · simp
          · rintro ⟨-, hlength, hset⟩
            cases text with
            | nil => exact .inr rfl
            | cons c rest =>
                have hrest : rest.length ≤ 0 + extra := by simp at hlength; omega
                exact .inl ⟨[c], ⟨c, hset c (by simp), rfl⟩, rest,
                  ih.mpr ⟨Nat.zero_le _, hrest, fun d hd => hset d (by simp [hd])⟩, rfl⟩
  | succ low ih =>
      change text ∈ (seq (set p) (times low extra (set p))).language ↔ _
      rw [mem_language_seq]
      constructor
      · rintro ⟨_, ⟨c, hc, rfl⟩, rest, hrest, rfl⟩
        obtain ⟨hlow, hlength, hset⟩ := ih.mp hrest
        exact ⟨by simpa using hlow, by simp; omega, by simpa [hc] using hset⟩
      · rintro ⟨hlow, hlength, hset⟩
        cases text with
        | nil => simp at hlow
        | cons c rest =>
            have hrest : low ≤ rest.length ∧ rest.length ≤ low + extra := by
              simp only [List.length_cons] at hlow hlength
              omega
            exact ⟨[c], ⟨c, hset c (by simp), rfl⟩, rest,
              ih.mpr ⟨hrest.1, hrest.2, fun d hd => hset d (by simp [hd])⟩, rfl⟩
theorem mem_language_seqs_set {α : Type*} {q : α → Char → Bool} {text : List α} {word : List Char} :
    word ∈ (seqs (text.map fun a => set (q a))).language ↔
      List.Forall₂ (fun a x => q a x) text word := by
  induction text generalizing word with
  | nil =>
      rw [List.forall₂_nil_left_iff]
      exact Language.mem_one word
  | cons a text ih =>
      rw [List.map_cons, mem_language_seqs_cons]
      constructor
      · rintro ⟨_, ⟨x, hx, rfl⟩, rest, hrest, rfl⟩
        exact .cons hx (ih.mp hrest)
      · intro h
        cases h with
        | @cons _ x _ rest hx hrest => exact ⟨[x], ⟨x, hx, rfl⟩, rest, ih.mpr hrest, rfl⟩

theorem mem_language_lit (text word : List Char) :
    word ∈ (seqs (text.map fun c => set (· == c))).language ↔ word = text := by
  rw [@mem_language_seqs_set _ fun c x => x == c]
  constructor
  · intro h
    induction h with
    | nil => rfl
    | cons hx _ ih => rw [eq_of_beq hx, ih]
  · rintro rfl
    exact List.forall₂_same.mpr fun x _ => beq_self_eq_true x

theorem mem_language_ilit {text : String} {word : List Char} : word ∈ (ilit text).language ↔
    List.Forall₂ (fun a x => sameLetter a x) text.toList word :=
  mem_language_seqs_set (q := sameLetter)

theorem mem_language_oneOf {rs : List Re} {text : List Char} :
    text ∈ (oneOf rs).language ↔ ∃ r ∈ rs, text ∈ r.language := by
  induction rs with
  | nil =>
      constructor
      · rintro ⟨c, hc, -⟩
        exact absurd hc (by simp)
      · simp
  | cons r rs ih =>
      cases rs with
      | nil => simp [oneOf]
      | cons s rs =>
          have hsplit : text ∈ (oneOf (r :: s :: rs)).language ↔
              text ∈ r.language ∨ text ∈ (oneOf (s :: rs)).language := Iff.rfl
          rw [hsplit, ih]
          simp only [List.mem_cons, exists_eq_or_imp]

/-! ### Matches -/

/-- Between the two cursors the word was read. -/
def Reads (c d : Cursor) (word : List Char) : Prop :=
  c.after = word ++ d.after ∧ d.before = word.reverse ++ c.before

theorem Reads.refl (c : Cursor) : Reads c c [] := ⟨rfl, rfl⟩

theorem Reads.trans {c d e : Cursor} {word word' : List Char} (h : Reads c d word)
    (h' : Reads d e word') : Reads c e (word ++ word') :=
  ⟨by rw [h.1, h'.1, List.append_assoc], by rw [h'.2, h.2, List.reverse_append, List.append_assoc]⟩

variable {c d : Cursor} {r s : Re}

/-- What repetition reads is a sequence of what each round reads. -/
theorem iterate_sound {greedy : Bool} {f : Cursor → List Cursor} {l : Language Char}
    (hf : ∀ c, ∀ d ∈ f c, ∃ word ∈ l, Reads c d word) (fuel : ℕ) :
    ∀ c, ∀ d ∈ iterate greedy f fuel c, ∃ word ∈ l∗, Reads c d word := by
  induction fuel with
  | zero =>
      intro c d hd
      obtain rfl : d = c := by simpa [iterate] using hd
      exact ⟨[], Language.nil_mem_kstar l, Reads.refl d⟩
  | succ fuel ih =>
      intro c d hd
      rcases mem_iterate_succ.mp hd with rfl | ⟨e, he, -, hd⟩
      · exact ⟨[], Language.nil_mem_kstar l, Reads.refl d⟩
      · obtain ⟨word, hword, hread⟩ := hf c e he
        obtain ⟨_, ⟨rest, rfl, hrest⟩, hread'⟩ := ih e d hd
        refine ⟨_, ⟨word :: rest, rfl, ?_⟩, hread.trans hread'⟩
        simpa using ⟨hword, hrest⟩

theorem matchesAt_sound (hr : r.anchorless = true) :
    ∀ c, ∀ d ∈ r.matchesAt c, ∃ word ∈ r.language, Reads c d word := by
  induction r with
  | eps =>
      intro c d hd
      rw [mem_eps.mp hd]
      exact ⟨[], rfl, Reads.refl c⟩
  | set p =>
      intro c d hd
      obtain ⟨x, rest, hsplit, hx, rfl⟩ := mem_set.mp hd
      exact ⟨[x], ⟨x, hx, rfl⟩, hsplit, rfl⟩
  | seq r s ihr ihs =>
      intro c d hd
      obtain ⟨hr, hs⟩ : r.anchorless = true ∧ s.anchorless = true := by
        simpa [anchorless] using hr
      obtain ⟨e, he, hd⟩ := mem_seq.mp hd
      obtain ⟨word, hword, hread⟩ := ihr hr c e he
      obtain ⟨word', hword', hread'⟩ := ihs hs e d hd
      exact ⟨word ++ word', Language.append_mem_mul hword hword', hread.trans hread'⟩
  | alt r s ihr ihs =>
      intro c d hd
      obtain ⟨hr, hs⟩ : r.anchorless = true ∧ s.anchorless = true := by
        simpa [anchorless] using hr
      rcases mem_alt.mp hd with hd | hd
      · obtain ⟨word, hword, hread⟩ := ihr hr c d hd
        exact ⟨word, .inl hword, hread⟩
      · obtain ⟨word, hword, hread⟩ := ihs hs c d hd
        exact ⟨word, .inr hword, hread⟩
  | star greedy r ih => exact fun c d hd => iterate_sound (ih hr) c.after.length c d hd
  | group n r ih =>
      intro c d hd
      obtain ⟨e, he, rfl⟩ := mem_group.mp hd
      obtain ⟨word, hword, hread⟩ := ih hr c e he
      exact ⟨word, hword, hread⟩
  | bos => simp [anchorless] at hr
  | eos => simp [anchorless] at hr
  | boundary => simp [anchorless] at hr

/-- A word that stands at the cursor is read. -/
def Complete (f : Cursor → List Cursor) (l : Language Char) : Prop :=
  ∀ c rest, ∀ word ∈ l, c.after = word ++ rest →
    ∃ d ∈ f c, d.after = rest ∧ Reads c d word

theorem mem_iterate_self (greedy : Bool) (f : Cursor → List Cursor) (fuel : ℕ) (c : Cursor) :
    c ∈ iterate greedy f fuel c := by
  cases fuel with
  | zero => simp [iterate]
  | succ fuel => exact mem_iterate_succ.mpr (.inl rfl)

theorem iterate_complete {greedy : Bool} {f : Cursor → List Cursor} {l : Language Char}
    (hf : Complete f l) (rest : List Char) {pieces : List (List Char)}
    (hpieces : ∀ piece ∈ pieces, piece ∈ l) :
    ∀ fuel c, c.after = pieces.flatten ++ rest → c.after.length ≤ fuel →
      ∃ d ∈ iterate greedy f fuel c, d.after = rest ∧ Reads c d pieces.flatten := by
  induction pieces with
  | nil =>
      intro fuel c hc _
      exact ⟨c, mem_iterate_self greedy f fuel c, hc, Reads.refl c⟩
  | cons piece pieces ih =>
      intro fuel c hc hfuel
      have hrest := ih fun piece hpiece => hpieces piece (by simp [hpiece])
      rw [List.flatten_cons, List.append_assoc] at hc
      by_cases hempty : piece = []
      · -- a round that reads nothing is left out
        subst hempty
        exact hrest fuel c hc hfuel
      · obtain ⟨e, he, hafter, hread⟩ := hf c _ piece (hpieces piece (by simp)) hc
        have hlt : e.after.length < c.after.length := by
          have hpos := List.length_pos_of_ne_nil hempty
          rw [hafter, hc, @List.length_append _ piece]
          omega
        obtain ⟨fuel, rfl⟩ : ∃ f, fuel = f + 1 := ⟨fuel - 1, by omega⟩
        obtain ⟨d, hd, hdrest, hread'⟩ := hrest fuel e hafter (by omega)
        exact ⟨d, mem_iterate_succ.mpr (.inr ⟨e, he, hlt, hd⟩), hdrest, hread.trans hread'⟩

theorem matchesAt_complete (hr : r.anchorless = true) : Complete r.matchesAt r.language := by
  induction r with
  | eps =>
      rintro c rest _ rfl hc
      exact ⟨c, mem_eps.mpr rfl, hc, Reads.refl c⟩
  | set p =>
      rintro c rest _ ⟨x, hx, rfl⟩ hc
      exact ⟨_, mem_set.mpr ⟨x, rest, hc, hx, rfl⟩, rfl, hc, rfl⟩
  | seq r s ihr ihs =>
      rintro c rest _ hword hc
      obtain ⟨hr, hs⟩ : r.anchorless = true ∧ s.anchorless = true := by
        simpa [anchorless] using hr
      obtain ⟨a, ha, b, hb, rfl⟩ := mem_language_seq.mp hword
      rw [List.append_assoc] at hc
      obtain ⟨e, he, hafter, hread⟩ := ihr hr c _ a ha hc
      obtain ⟨d, hd, hdrest, hread'⟩ := ihs hs e rest b hb hafter
      exact ⟨d, mem_seq.mpr ⟨e, he, hd⟩, hdrest, hread.trans hread'⟩
  | alt r s ihr ihs =>
      intro c rest word hword hc
      obtain ⟨hr, hs⟩ : r.anchorless = true ∧ s.anchorless = true := by
        simpa [anchorless] using hr
      rcases hword with hword | hword
      · obtain ⟨d, hd, h⟩ := ihr hr c rest word hword hc
        exact ⟨d, mem_alt.mpr (.inl hd), h⟩
      · obtain ⟨d, hd, h⟩ := ihs hs c rest word hword hc
        exact ⟨d, mem_alt.mpr (.inr hd), h⟩
  | star greedy r ih =>
      rintro c rest _ ⟨pieces, rfl, hpieces⟩ hc
      exact iterate_complete (ih hr) rest hpieces c.after.length c hc le_rfl
  | group n r ih =>
      intro c rest word hword hc
      obtain ⟨e, he, hafter, hread⟩ := ih hr c rest word hword hc
      exact ⟨_, mem_group.mpr ⟨e, he, rfl⟩, hafter, hread⟩
  | bos => simp [anchorless] at hr
  | eos => simp [anchorless] at hr
  | boundary => simp [anchorless] at hr

/-! ### Tests and captures -/

theorem matchesAt_seqs_eos {rs : List Re} (h : ∀ r ∈ rs, r.anchorless = true) (c : Cursor) :
    (seqs (rs ++ [eos])).matchesAt c ≠ [] ↔ c.after ∈ (seqs rs).language := by
  induction rs generalizing c with
  | nil =>
      constructor
      · intro hne
        obtain ⟨d, hd⟩ := List.exists_mem_of_ne_nil _ hne
        obtain ⟨e, he, -⟩ := mem_seq.mp hd
        exact (mem_eos.mp he).1
      · intro hc
        exact List.ne_nil_of_mem (mem_seq.mpr ⟨c, mem_eos.mpr ⟨hc, rfl⟩, mem_eps.mpr rfl⟩)
  | cons r rs ih =>
      have hr := h r (by simp)
      have ih := ih fun s hs => h s (by simp [hs])
      change (seq r (seqs (rs ++ [eos]))).matchesAt c ≠ [] ↔
        c.after ∈ (seq r (seqs rs)).language
      rw [mem_language_seq]
      constructor
      · intro hne
        obtain ⟨d, hd⟩ := List.exists_mem_of_ne_nil _ hne
        obtain ⟨e, he, hd⟩ := mem_seq.mp hd
        obtain ⟨word, hword, hread⟩ := matchesAt_sound hr c e he
        exact ⟨word, hword, e.after, (ih e).mp (List.ne_nil_of_mem hd), hread.1.symm⟩
      · rintro ⟨word, hword, rest, hrest, hc⟩
        obtain ⟨e, he, hafter, -⟩ := matchesAt_complete hr c rest word hword hc.symm
        have hne := (ih e).mpr (hafter ▸ hrest)
        obtain ⟨d, hd⟩ := List.exists_mem_of_ne_nil _ hne
        exact List.ne_nil_of_mem (mem_seq.mpr ⟨e, he, hd⟩)

/-- A test with both anchors is membership in the language between them. -/
theorem test_anchored {rs : List Re} (h : ∀ r ∈ rs, r.anchorless = true) (text : List Char) :
    (seqs (bos :: (rs ++ [eos]))).test text = true ↔ text ∈ (seqs rs).language := by
  change ((seq bos (seqs (rs ++ [eos]))).exec text).isSome = true ↔ _
  rw [exec_bos, ← matchesAt_seqs_eos h ⟨[], text, []⟩]
  cases (seqs (rs ++ [eos])).matchesAt ⟨[], text, []⟩ <;> simp

/-- A match stands at some place of the text. -/
theorem exec_mem {text : List Char} (h : r.exec text = some d) :
    ∃ before after, d ∈ r.matchesAt ⟨before, after, []⟩ := by
  have hsearch : ∀ text before, r.searchFrom before text = some d →
      ∃ before after, d ∈ r.matchesAt ⟨before, after, []⟩ := by
    intro text
    induction text with
    | nil => exact fun before h => ⟨before, [], List.mem_of_head? h⟩
    | cons x text ih =>
        intro before h
        rw [searchFrom, Option.or_eq_some_iff] at h
        rcases h with h | ⟨-, h⟩
        · exact ⟨before, x :: text, List.mem_of_head? h⟩
        · exact ih (x :: before) h
  exact hsearch text [] h

theorem iterate_groups {greedy : Bool} {f : Cursor → List Cursor}
    (hf : ∀ c, ∀ d ∈ f c, d.groups = c.groups) (fuel : ℕ) :
    ∀ c, ∀ d ∈ iterate greedy f fuel c, d.groups = c.groups := by
  induction fuel with
  | zero =>
      intro c d hd
      obtain rfl : d = c := by simpa [iterate] using hd
      rfl
  | succ fuel ih =>
      intro c d hd
      rcases mem_iterate_succ.mp hd with rfl | ⟨e, he, -, hd⟩
      · rfl
      · rw [ih e d hd, hf c e he]

theorem groups_of_groupless (hr : r.groupless = true) :
    ∀ c, ∀ d ∈ r.matchesAt c, d.groups = c.groups := by
  induction r with
  | eps =>
      intro c d hd
      rw [mem_eps.mp hd]
  | set p =>
      intro c d hd
      obtain ⟨x, rest, -, -, rfl⟩ := mem_set.mp hd
      rfl
  | seq r s ihr ihs =>
      intro c d hd
      obtain ⟨hr, hs⟩ : r.groupless = true ∧ s.groupless = true := by simpa [groupless] using hr
      obtain ⟨e, he, hd⟩ := mem_seq.mp hd
      rw [ihs hs e d hd, ihr hr c e he]
  | alt r s ihr ihs =>
      intro c d hd
      obtain ⟨hr, hs⟩ : r.groupless = true ∧ s.groupless = true := by simpa [groupless] using hr
      rcases mem_alt.mp hd with hd | hd
      · exact ihr hr c d hd
      · exact ihs hs c d hd
  | star greedy r ih => exact fun c d hd => iterate_groups (ih hr) c.after.length c d hd
  | group n r ih => simp [groupless] at hr
  | bos =>
      intro c d hd
      simp only [matchesAt] at hd
      split at hd
      · rw [List.mem_singleton.mp hd]
      · cases hd
  | eos =>
      intro c d hd
      rw [(mem_eos.mp hd).2]
  | boundary =>
      intro c d hd
      simp only [matchesAt] at hd
      split at hd
      · rw [List.mem_singleton.mp hd]
      · cases hd

theorem Reads.captured {word : List Char} (h : Reads c d word) :
    (d.before.take (d.before.length - c.before.length)).reverse = word := by
  have hlength : d.before.length - c.before.length = word.reverse.length := by
    rw [h.2, List.length_append]
    omega
  rw [hlength, h.2, List.take_left, List.reverse_reverse]

theorem groups_of_seqs {after : List Re} {n : ℕ} (hr : r.anchorless = true)
    (hafter : (seqs after).groupless = true) (before : List Re) :
    ∀ c, ∀ d ∈ (seqs (before ++ group n r :: after)).matchesAt c,
      ∃ word ∈ r.language, d.group? n = some word := by
  induction before with
  | nil =>
      intro c d hd
      obtain ⟨e, he, hd⟩ := mem_seq.mp hd
      obtain ⟨f, hf, rfl⟩ := mem_group.mp he
      obtain ⟨word, hword, hread⟩ := matchesAt_sound hr c f hf
      refine ⟨word, hword, ?_⟩
      have hgroups := groups_of_groupless hafter _ d hd
      rw [Cursor.group?, hgroups]
      simp only [hread.captured, List.lookup_cons_self]
  | cons s before ih =>
      intro c d hd
      obtain ⟨e, -, hd⟩ := mem_seq.mp hd
      exact ih e d hd

/-- What a group captures that no group follows is of the group's language. -/
theorem capture_mem {before after : List Re} {n : ℕ} {text word : List Char}
    (hr : r.anchorless = true) (hafter : (seqs after).groupless = true)
    (h : (seqs (before ++ group n r :: after)).capture n text = some word) :
    word ∈ r.language := by
  obtain ⟨d, hd, hword⟩ := Option.bind_eq_some_iff.mp h
  obtain ⟨front, rest, hd⟩ := exec_mem hd
  obtain ⟨word', hword', hgroup⟩ := groups_of_seqs hr hafter before _ d hd
  rw [hgroup] at hword
  rwa [← Option.some.inj hword]

end AfkClient.Re

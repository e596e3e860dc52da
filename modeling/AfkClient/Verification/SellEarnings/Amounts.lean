import AfkClient.Library.RegexLanguage
import AfkClient.Model.SellEarnings
import Mathlib.Algebra.Order.Floor.Ring
import Mathlib.Data.Rat.Cast.Order
import Mathlib.Tactic.FieldSimp
import Mathlib.Tactic.Ring

/-! The written forms of an amount of money. Each of the three formats of the parser accepts
exactly one of them, no text has two, and the number read is the amount that was written. -/

namespace AfkClient.SellEarnings

open Re Text

/-! ### Written amounts -/

structure Digits (text : List Char) : Prop where
  ne_nil : text ≠ []
  digit : ∀ c ∈ text, c.isDigit = true

/-- What may follow the whole part: nothing, tenths or hundredths behind a mark. -/
inductive Decimals (mark : Char) : List Char → ℕ → Prop where
  | none : Decimals mark [] 0
  | tenths {d : Char} (h : d.isDigit = true) : Decimals mark [mark, d] (10 * decimal [d])
  | hundredths {d e : Char} (h : d.isDigit = true) (h' : e.isDigit = true) :
      Decimals mark [mark, d, e] (decimal [d, e])

/-- Groups of three digits, each behind a mark, and their digits alone. -/
inductive Groups (mark : Char) : List Char → List Char → Prop where
  | last {group : List Char} (h : group.length = 3) (hdigit : ∀ c ∈ group, c.isDigit = true) :
      Groups mark (mark :: group) group
  | more {group written digits : List Char} (h : group.length = 3)
      (hdigit : ∀ c ∈ group, c.isDigit = true) (rest : Groups mark written digits) :
      Groups mark (mark :: group ++ written) (group ++ digits)

/-- Digits with at most two decimals behind a point or a comma. -/
inductive Plain : List Char → ℕ → Prop where
  | intro {mark : Char} {whole decimals : List Char} {n : ℕ} (hmark : mark = '.' ∨ mark = ',')
      (hwhole : Digits whole) (hdecimals : Decimals mark decimals n) :
      Plain (whole ++ decimals) (100 * decimal whole + n)

/-- One to three digits, groups of three behind `thousands`, decimals behind `mark`. -/
inductive Grouped (thousands mark : Char) : List Char → ℕ → Prop where
  | intro {lead groups digits decimals : List Char} {n : ℕ} (hlead : Digits lead)
      (hlength : lead.length ≤ 3) (hgroups : Groups thousands groups digits)
      (hdecimals : Decimals mark decimals n) :
      Grouped thousands mark (lead ++ groups ++ decimals) (100 * decimal (lead ++ digits) + n)

/-- The text is a written form of the amount, in cents. -/
inductive Rendering (raw : List Char) (n : ℕ) : Prop where
  | plain (h : Plain raw n)
  | german (h : Grouped '.' ',' raw n)
  | english (h : Grouped ',' '.' raw n)

/-! ### The formats -/

theorem mem_separator {text : List Char} :
    text ∈ separator.language ↔ text = ['.'] ∨ text = [','] := by
  constructor
  · rintro ⟨c, hc, rfl⟩
    simpa using hc
  · rintro (rfl | rfl)
    · exact ⟨'.', by simp, rfl⟩
    · exact ⟨',', by simp, rfl⟩

theorem mem_digits {text : List Char} : text ∈ (some1 digit).language ↔ Digits text :=
  mem_language_some1_set.trans ⟨fun h => ⟨h.1, h.2⟩, fun h => ⟨h.ne_nil, h.digit⟩⟩

/-- One or two digits, in hundredths of the unit before them. -/
theorem decimals_of_mem {mark : Char} {text : List Char}
    (h : text ∈ (times 1 1 digit).language) : ∃ n, Decimals mark (mark :: text) n := by
  obtain ⟨hlow, hhigh, hdigit⟩ := mem_language_times_set.mp h
  match text, hlow, hhigh, hdigit with
  | [d], _, _, hdigit => exact ⟨_, .tenths (hdigit d (by simp))⟩
  | [d, e], _, _, hdigit => exact ⟨_, .hundredths (hdigit d (by simp)) (hdigit e (by simp))⟩

theorem Decimals.cases_mem {mark : Char} {text : List Char} {n : ℕ} (h : Decimals mark text n) :
    text = [] ∨ ∃ rest ∈ (times 1 1 digit).language, text = mark :: rest := by
  cases h with
  | none => exact .inl rfl
  | @tenths d h =>
      exact .inr ⟨[d], mem_language_times_set.mpr ⟨by simp, by simp, by simpa using h⟩, rfl⟩
  | @hundredths d e h h' =>
      have hdigit : ∀ c ∈ [d, e], c.isDigit = true := by simp [h, h']
      exact .inr ⟨[d, e], mem_language_times_set.mpr ⟨by simp, by simp, hdigit⟩, rfl⟩

theorem mem_plainAmount {raw : List Char} :
    raw ∈ (seqs [some1 digit, opt (seq separator (times 1 1 digit))]).language ↔
      ∃ n, Plain raw n := by
  rw [mem_language_seqs_pair]
  simp only [mem_digits, mem_language_opt, mem_language_seq]
  constructor
  · rintro ⟨whole, hwhole, decimals, ⟨mark, hmark, rest, hrest, rfl⟩ | rfl, rfl⟩
    · rcases mem_separator.mp hmark with rfl | rfl
      · obtain ⟨n, hn⟩ := decimals_of_mem hrest
        exact ⟨_, .intro (.inl rfl) hwhole hn⟩
      · obtain ⟨n, hn⟩ := decimals_of_mem hrest
        exact ⟨_, .intro (.inr rfl) hwhole hn⟩
    · exact ⟨_, .intro (.inl rfl) hwhole .none⟩
  · rintro ⟨_, @⟨mark, whole, decimals, n, hmark, hwhole, hdecimals⟩⟩
    refine ⟨whole, hwhole, decimals, ?_, rfl⟩
    rcases hdecimals.cases_mem with rfl | ⟨rest, hrest, rfl⟩
    · exact .inr rfl
    · exact .inl ⟨[mark], mem_separator.mpr (by simpa using hmark), rest, hrest, rfl⟩

theorem mem_groups {thousands : String} {mark : Char} (hmark : thousands.toList = [mark])
    {text : List Char} : text ∈ (some1 (seq (lit thousands) (times 3 0 digit))).language ↔
      ∃ digits, Groups mark text digits := by
  have hgroup : ∀ piece, piece ∈ (seq (lit thousands) (times 3 0 digit)).language ↔
      ∃ group : List Char, group.length = 3 ∧ (∀ c ∈ group, c.isDigit = true) ∧
        piece = mark :: group := by
    intro piece
    rw [mem_language_seq]
    constructor
    · rintro ⟨written, hwritten, group, hgroup, rfl⟩
      obtain ⟨hlow, hhigh, hdigit⟩ := mem_language_times_set.mp hgroup
      rw [lit, mem_language_lit, hmark] at hwritten
      exact ⟨group, by omega, hdigit, by rw [hwritten]; rfl⟩
    · rintro ⟨group, hlength, hdigit, rfl⟩
      refine ⟨[mark], (mem_language_lit _ _).mpr hmark.symm, group, ?_, rfl⟩
      exact mem_language_times_set.mpr ⟨by omega, by omega, hdigit⟩
  rw [some1, mem_language_seq]
  constructor
  · rintro ⟨first, hfirst, _, ⟨pieces, rfl, hpieces⟩, rfl⟩
    induction pieces generalizing first with
    | nil =>
        obtain ⟨group, hlength, hdigit, rfl⟩ := (hgroup first).mp hfirst
        exact ⟨group, by simpa using Groups.last hlength hdigit⟩
    | cons piece pieces ih =>
        obtain ⟨group, hlength, hdigit, rfl⟩ := (hgroup first).mp hfirst
        obtain ⟨digits, hrest⟩ := ih piece (hpieces piece (by simp)) fun p hp =>
          hpieces p (by simp [hp])
        exact ⟨group ++ digits, by simpa using Groups.more hlength hdigit hrest⟩
  · rintro ⟨digits, h⟩
    induction h with
    | @last group hlength hdigit =>
        exact ⟨mark :: group, (hgroup _).mpr ⟨group, hlength, hdigit, rfl⟩, [],
          ⟨[], rfl, by simp⟩, by simp⟩
    | @more group written digits hlength hdigit _ ih =>
        obtain ⟨first, hfirst, _, ⟨pieces, rfl, hpieces⟩, rfl⟩ := ih
        refine ⟨mark :: group, (hgroup _).mpr ⟨group, hlength, hdigit, rfl⟩, _,
          ⟨first :: pieces, rfl, ?_⟩, by simp⟩
        simpa using ⟨hfirst, hpieces⟩

theorem mem_groupedAmount {thousands fraction : String} {t f : Char}
    (ht : thousands.toList = [t]) (hf : fraction.toList = [f]) {raw : List Char} :
    raw ∈ (seqs [times 1 2 digit, some1 (seq (lit thousands) (times 3 0 digit)),
      opt (seq (lit fraction) (times 1 1 digit))]).language ↔ ∃ n, Grouped t f raw n := by
  rw [mem_language_seqs_cons]
  simp only [mem_language_seqs_pair, mem_groups ht, mem_language_opt,
    mem_language_seq (r := lit fraction)]
  constructor
  · rintro ⟨lead, hlead, _, ⟨groups, ⟨digits, hgroups⟩, decimals, hdecimals, rfl⟩, rfl⟩
    obtain ⟨hlow, hhigh, hdigit⟩ := mem_language_times_set.mp hlead
    have hlead : Digits lead := ⟨List.ne_nil_of_length_pos (by omega), hdigit⟩
    rw [← List.append_assoc]
    rcases hdecimals with ⟨mark, hmark, rest, hrest, rfl⟩ | rfl
    · rw [lit, mem_language_lit, hf] at hmark
      obtain ⟨n, hn⟩ := @decimals_of_mem f rest hrest
      rw [hmark]
      exact ⟨_, .intro hlead hhigh hgroups hn⟩
    · exact ⟨_, .intro hlead hhigh hgroups .none⟩
  · rintro ⟨_, @⟨lead, groups, digits, decimals, n, hlead, hlength, hgroups, hdecimals⟩⟩
    have hpos := List.length_pos_of_ne_nil hlead.ne_nil
    refine ⟨lead, mem_language_times_set.mpr ⟨hpos, hlength, hlead.digit⟩, groups ++ decimals,
      ⟨groups, ⟨digits, hgroups⟩, decimals, ?_, rfl⟩, by simp⟩
    rcases hdecimals.cases_mem with rfl | ⟨rest, hrest, rfl⟩
    · exact .inr rfl
    · exact .inl ⟨[f], (mem_language_lit _ _).mpr hf.symm, rest, hrest, rfl⟩

theorem plainAmount_test (raw : List Char) :
    plainAmount.test raw = true ↔ ∃ n, Plain raw n := by
  have hparts : ∀ r ∈ [some1 digit, opt (seq separator (times 1 1 digit))],
      r.anchorless = true := by
    simp [some1, many, opt, times, digit, separator, seqs, anchorless]
  exact (test_anchored hparts raw).trans mem_plainAmount

theorem groupedAmount_test {thousands fraction : String} {t f : Char}
    (ht : thousands.toList = [t]) (hf : fraction.toList = [f]) (raw : List Char) :
    (groupedAmount thousands fraction).test raw = true ↔ ∃ n, Grouped t f raw n := by
  have hparts : ∀ r ∈ [times 1 2 digit, some1 (seq (lit thousands) (times 3 0 digit)),
      opt (seq (lit fraction) (times 1 1 digit))], r.anchorless = true := by
    simp [some1, many, opt, times, digit, seqs, anchorless, lit, ht, hf]
  exact (test_anchored hparts raw).trans (mem_groupedAmount ht hf)

theorem germanAmount_test (raw : List Char) :
    germanAmount.test raw = true ↔ ∃ n, Grouped '.' ',' raw n := groupedAmount_test rfl rfl raw

theorem englishAmount_test (raw : List Char) :
    englishAmount.test raw = true ↔ ∃ n, Grouped ',' '.' raw n := groupedAmount_test rfl rfl raw

/-! ### No text has two formats -/

theorem Decimals.length_le {mark : Char} {decimals : List Char} {n : ℕ}
    (h : Decimals mark decimals n) : decimals.length ≤ 3 := by
  cases h <;> simp

theorem Plain.tail_length {raw : List Char} {n : ℕ} (h : Plain raw n) :
    (raw.dropWhile Char.isDigit).length ≤ 3 := by
  cases h with
  | @intro mark whole decimals n hmark hwhole hdecimals =>
      rw [List.dropWhile_append_of_pos hwhole.digit]
      exact (List.dropWhile_sublist _).length_le.trans hdecimals.length_le

theorem Groups.written_eq {mark : Char} {written digits : List Char}
    (h : Groups mark written digits) : ∃ rest, written = mark :: rest ∧ 3 ≤ rest.length := by
  cases h with
  | @last group hlength hdigit => exact ⟨digits, rfl, hlength.ge⟩
  | @more group written digits hlength hdigit rest =>
      exact ⟨group ++ written, rfl, by simp; omega⟩

/-- Behind the first digits of a grouped amount stands the mark of its groups, and at least one
group. -/
theorem Grouped.tail_eq {thousands mark : Char} {raw : List Char} {n : ℕ}
    (h : Grouped thousands mark raw n) (hmark : thousands.isDigit = false) :
    ∃ rest, raw.dropWhile Char.isDigit = thousands :: rest ∧ 3 ≤ rest.length := by
  cases h with
  | @intro lead groups digits decimals n hlead hlength hgroups hdecimals =>
      obtain ⟨rest, rfl, hrest⟩ := hgroups.written_eq
      refine ⟨rest ++ decimals, ?_, by simp; omega⟩
      rw [List.append_assoc, List.dropWhile_append_of_pos hlead.digit]
      simp [hmark]

theorem Plain.not_grouped {thousands mark : Char} {raw : List Char} {n m : ℕ} (h : Plain raw n)
    (hmark : thousands.isDigit = false) : ¬ Grouped thousands mark raw m := by
  intro hgrouped
  obtain ⟨rest, htail, hrest⟩ := hgrouped.tail_eq hmark
  have hlength := h.tail_length
  rw [htail, List.length_cons] at hlength
  omega

theorem Grouped.not_grouped {raw : List Char} {n m : ℕ} (h : Grouped '.' ',' raw n) :
    ¬ Grouped ',' '.' raw m := by
  intro h'
  obtain ⟨rest, htail, -⟩ := h.tail_eq rfl
  obtain ⟨rest', htail', -⟩ := h'.tail_eq rfl
  rw [htail] at htail'
  exact absurd (List.cons.inj htail').1 (by decide)

theorem Plain.not_german {raw : List Char} {n : ℕ} (h : Plain raw n) :
    ¬ germanAmount.test raw = true := by
  rw [germanAmount_test]
  exact fun ⟨m, hm⟩ => h.not_grouped rfl hm

theorem Plain.not_english {raw : List Char} {n : ℕ} (h : Plain raw n) :
    ¬ englishAmount.test raw = true := by
  rw [englishAmount_test]
  exact fun ⟨m, hm⟩ => h.not_grouped rfl hm

theorem Grouped.not_german {raw : List Char} {n : ℕ} (h : Grouped ',' '.' raw n) :
    ¬ germanAmount.test raw = true := by
  rw [germanAmount_test]
  exact fun ⟨m, hm⟩ => hm.not_grouped h

theorem normalize_plain {raw : List Char} {n : ℕ} (h : Plain raw n) :
    normalize raw = some (normalizePlain raw) := by
  rw [normalize, if_neg h.not_german, if_neg h.not_english,
    if_pos ((plainAmount_test raw).mpr ⟨n, h⟩)]

theorem normalize_german {raw : List Char} {n : ℕ} (h : Grouped '.' ',' raw n) :
    normalize raw = some (normalizeGerman raw) :=
  if_pos ((germanAmount_test raw).mpr ⟨n, h⟩)

theorem normalize_english {raw : List Char} {n : ℕ} (h : Grouped ',' '.' raw n) :
    normalize raw = some (normalizeEnglish raw) := by
  rw [normalize, if_neg h.not_german, if_pos ((englishAmount_test raw).mpr ⟨n, h⟩)]

theorem rendering_of_normalize {raw normalized : List Char} (h : normalize raw = some normalized) :
    ∃ n, Rendering raw n := by
  rw [normalize] at h
  split at h
  · obtain ⟨n, hn⟩ := (germanAmount_test raw).mp ‹_›
    exact ⟨n, .german hn⟩
  split at h
  · obtain ⟨n, hn⟩ := (englishAmount_test raw).mp ‹_›
    exact ⟨n, .english hn⟩
  split at h
  · obtain ⟨n, hn⟩ := (plainAmount_test raw).mp ‹_›
    exact ⟨n, .plain hn⟩
  · cases h

/-! ### The value of an amount -/

theorem not_mem_of_digits {mark : Char} {text : List Char} (hmark : mark.isDigit = false)
    (h : ∀ c ∈ text, c.isDigit = true) : mark ∉ text := by
  intro hmem
  rw [h mark hmem] at hmark
  cases hmark

theorem Decimals.mem {mark c : Char} {decimals : List Char} {n : ℕ} (h : Decimals mark decimals n)
    (hc : c ∈ decimals) : c = mark ∨ c.isDigit = true := by
  cases h with
  | none => cases hc
  | tenths h =>
      rcases List.mem_pair.mp hc with rfl | rfl
      · exact .inl rfl
      · exact .inr h
  | hundredths h h' =>
      rcases List.mem_cons.mp hc with rfl | hc
      · exact .inl rfl
      · rcases List.mem_pair.mp hc with rfl | rfl
        · exact .inr h
        · exact .inr h'

theorem Groups.digit {mark : Char} {written digits : List Char} (h : Groups mark written digits) :
    ∀ c ∈ digits, c.isDigit = true := by
  induction h with
  | last _ hdigit => exact hdigit
  | more _ hdigit _ ih =>
      intro c hc
      rcases List.mem_append.mp hc with hc | hc
      · exact hdigit c hc
      · exact ih c hc

/-- Without their marks, the groups are their digits. -/
theorem Groups.filter {mark : Char} {written digits : List Char} {p : Char → Bool}
    (h : Groups mark written digits) (hmark : p mark = false)
    (hp : ∀ c : Char, c.isDigit = true → p c = true) : written.filter p = digits := by
  induction h with
  | @last group _ hdigit =>
      rw [List.filter_cons_of_neg (by simp [hmark])]
      exact List.filter_eq_self.mpr fun c hc => hp c (hdigit c hc)
  | @more group written digits _ hdigit _ ih =>
      rw [List.cons_append, List.filter_cons_of_neg (by simp [hmark]), List.filter_append, ih,
        List.filter_eq_self.mpr fun c hc => hp c (hdigit c hc)]

theorem replaceFirst_append {c d : Char} {front : List Char} (h : c ∉ front) (rest : List Char) :
    replaceFirst c d (front ++ rest) = front ++ replaceFirst c d rest := by
  induction front with
  | nil => rfl
  | cons x front ih =>
      have hx : x ≠ c := fun hx => h (by simp [hx])
      rw [List.cons_append, replaceFirst, if_neg hx, ih fun hc => h (by simp [hc])]
      rfl

theorem replaceFirst_of_not_mem {c d : Char} {text : List Char} (h : c ∉ text) :
    replaceFirst c d text = text := by
  simpa [replaceFirst] using replaceFirst_append (d := d) h []

/-- The decimals of a literal stand behind a point. -/
theorem Decimals.point {mark : Char} {decimals : List Char} {n : ℕ}
    (hmark : mark = '.' ∨ mark = ',') (h : Decimals mark decimals n) :
    Decimals '.' (replaceFirst ',' '.' decimals) n := by
  rcases hmark with rfl | rfl
  · have hcomma : ',' ∉ decimals := by
      intro hmem
      rcases h.mem hmem with hc | hc
      · exact absurd hc (by decide)
      · exact absurd hc (by decide)
    rwa [replaceFirst_of_not_mem hcomma]
  · cases h with
    | none => exact .none
    | tenths h => exact .tenths h
    | hundredths h h' => exact .hundredths h h'

theorem number_literal {whole decimals : List Char} {n : ℕ}
    (hwhole : ∀ c ∈ whole, c.isDigit = true) (hdecimals : Decimals '.' decimals n) :
    number (whole ++ decimals) = ((100 * decimal whole + n : ℕ) : ℚ) / 100 := by
  have hpoint : ∀ c ∈ whole, decide (c ≠ '.') = true := by
    intro c hc
    have hne : c ≠ '.' := fun h => not_mem_of_digits rfl hwhole (h ▸ hc)
    simpa using hne
  rw [number, List.takeWhile_append_of_pos hpoint, List.dropWhile_append_of_pos hpoint]
  cases hdecimals with
  | none =>
      simp [decimal]
  | tenths h =>
      simp
      ring
  | hundredths h h' =>
      simp
      ring

theorem Plain.number_eq {raw : List Char} {n : ℕ} (h : Plain raw n) :
    number (normalizePlain raw) = n / 100 := by
  cases h with
  | @intro mark whole decimals n hmark hwhole hdecimals =>
      rw [normalizePlain, replaceFirst_append (not_mem_of_digits rfl hwhole.digit)]
      exact number_literal hwhole.digit (hdecimals.point hmark)

theorem digit_append {lead digits groups : List Char} {mark : Char} (hlead : Digits lead)
    (hgroups : Groups mark groups digits) : ∀ c ∈ lead ++ digits, c.isDigit = true := by
  intro c hc
  rcases List.mem_append.mp hc with hc | hc
  · exact hlead.digit c hc
  · exact hgroups.digit c hc

/-- Without the marks of the groups only digits stand before the decimals. -/
theorem removeAll_grouped {thousands mark : Char} {lead groups digits decimals : List Char} {n : ℕ}
    (hmark : thousands.isDigit = false) (hne : mark ≠ thousands) (hlead : Digits lead)
    (hgroups : Groups thousands groups digits) (hdecimals : Decimals mark decimals n) :
    removeAll thousands (lead ++ groups ++ decimals) = lead ++ digits ++ decimals := by
  have hdigit : ∀ c : Char, c.isDigit = true → decide (c ≠ thousands) = true := by
    intro c hc
    have hc : c ≠ thousands := by
      rintro rfl
      rw [hc] at hmark
      cases hmark
    simpa using hc
  have hlead' : lead.filter (fun c => decide (c ≠ thousands)) = lead :=
    List.filter_eq_self.mpr fun c hc => hdigit c (hlead.digit c hc)
  have hdecimals' : decimals.filter (fun c => decide (c ≠ thousands)) = decimals := by
    refine List.filter_eq_self.mpr fun c hc => ?_
    rcases hdecimals.mem hc with rfl | hc
    · simpa using hne
    · exact hdigit c hc
  rw [removeAll, List.filter_append, List.filter_append, hlead', hdecimals',
    hgroups.filter (by simp) hdigit]

theorem Grouped.number_german {raw : List Char} {n : ℕ} (h : Grouped '.' ',' raw n) :
    number (normalizeGerman raw) = n / 100 := by
  cases h with
  | @intro lead groups digits decimals n hlead hlength hgroups hdecimals =>
      have hdigit := digit_append hlead hgroups
      rw [normalizeGerman, removeAll_grouped rfl (by decide) hlead hgroups hdecimals,
        replaceFirst_append (not_mem_of_digits rfl hdigit)]
      exact number_literal hdigit (hdecimals.point (.inr rfl))

theorem Grouped.number_english {raw : List Char} {n : ℕ} (h : Grouped ',' '.' raw n) :
    number (normalizeEnglish raw) = n / 100 := by
  cases h with
  | @intro lead groups digits decimals n hlead hlength hgroups hdecimals =>
      rw [normalizeEnglish, removeAll_grouped rfl (by decide) hlead hgroups hdecimals]
      exact number_literal (digit_append hlead hgroups) hdecimals

/-- A text is rewritten to a literal exactly if it is a written amount; the literal has its
value. -/
theorem Rendering.normalize_eq {raw : List Char} {n : ℕ} (h : Rendering raw n) :
    ∃ normalized, normalize raw = some normalized ∧ number normalized = n / 100 := by
  cases h with
  | plain h => exact ⟨_, normalize_plain h, h.number_eq⟩
  | german h => exact ⟨_, normalize_german h, h.number_german⟩
  | english h => exact ⟨_, normalize_english h, h.number_english⟩

theorem Rendering.unique {raw : List Char} {n m : ℕ} (h : Rendering raw n) (h' : Rendering raw m) :
    n = m := by
  obtain ⟨normalized, hnormalized, hvalue⟩ := h.normalize_eq
  obtain ⟨normalized', hnormalized', hvalue'⟩ := h'.normalize_eq
  rw [hnormalized, Option.some.injEq] at hnormalized'
  rw [hnormalized', hvalue'] at hvalue
  have hequal : (m : ℚ) = n := by linarith
  exact_mod_cast hequal.symm

/-! ### Whole cents -/

theorem cents_eq {fraction : Char → Bool} {mark : Char} {front digits decimals : List Char} {n : ℕ}
    (hmark : fraction mark = true) (hdigit : mark.isDigit = false)
    (hfront : ∀ c ∈ front, fraction c = false) (hdigits : front.filter Char.isDigit = digits)
    (hdecimals : Decimals mark decimals n) :
    cents fraction (front ++ decimals) = 100 * decimal digits + n := by
  have hfront' : ∀ c ∈ front, (! fraction c) = true := fun c hc => by simp [hfront c hc]
  rw [cents, List.takeWhile_append_of_pos hfront', List.dropWhile_append_of_pos hfront']
  cases hdecimals with
  | none => simp [hdigits, decimal]
  | tenths h => simp [hmark, hdigit, hdigits, h, decimal]
  | hundredths h h' => simp [hmark, hdigit, hdigits, h, h', decimal]

theorem Plain.cents_eq {raw : List Char} {n : ℕ} (h : Plain raw n) :
    cents (fun c => c == '.' || c == ',') raw = n := by
  cases h with
  | @intro mark whole decimals n hmark hwhole hdecimals =>
      refine SellEarnings.cents_eq (by simpa using hmark) ?_ ?_
        (List.filter_eq_self.mpr hwhole.digit) hdecimals
      · rcases hmark with rfl | rfl <;> rfl
      · intro c hc
        have hpoint : c ≠ '.' := fun h => not_mem_of_digits rfl hwhole.digit (h ▸ hc)
        have hcomma : c ≠ ',' := fun h => not_mem_of_digits rfl hwhole.digit (h ▸ hc)
        simp [hpoint, hcomma]

theorem Groups.mem {mark c : Char} {written digits : List Char} (h : Groups mark written digits)
    (hc : c ∈ written) : c = mark ∨ c.isDigit = true := by
  induction h with
  | last _ hdigit =>
      rcases List.mem_cons.mp hc with hc | hc
      · exact .inl hc
      · exact .inr (hdigit c hc)
  | more _ hdigit _ ih =>
      rcases List.mem_append.mp hc with hc | hc
      · rcases List.mem_cons.mp hc with hc | hc
        · exact .inl hc
        · exact .inr (hdigit c hc)
      · exact ih hc

theorem Grouped.cents_eq {thousands mark : Char} {raw : List Char} {n : ℕ}
    (h : Grouped thousands mark raw n) (hthousands : thousands.isDigit = false)
    (hmark : mark.isDigit = false) (hne : thousands ≠ mark) : cents (· == mark) raw = n := by
  cases h with
  | @intro lead groups digits decimals n hlead hlength hgroups hdecimals =>
      refine SellEarnings.cents_eq (by simp) hmark ?_ ?_ hdecimals
      · intro c hc
        have hcases : c = thousands ∨ c.isDigit = true := by
          rcases List.mem_append.mp hc with hc | hc
          · exact .inr (hlead.digit c hc)
          · exact hgroups.mem hc
        have hc : c ≠ mark := by
          rcases hcases with rfl | hdigit
          · exact hne
          · rintro rfl
            rw [hdigit] at hmark
            cases hmark
        simpa using hc
      · rw [List.filter_append, List.filter_eq_self.mpr hlead.digit,
          hgroups.filter hthousands fun _ hc => hc]

end AfkClient.SellEarnings

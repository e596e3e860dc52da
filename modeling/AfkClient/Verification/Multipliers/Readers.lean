import AfkClient.Library.RegexLanguage
import AfkClient.Model.RustMultipliers
import Mathlib.Data.List.TakeWhile
import Mathlib.Data.Rat.Floor
import Mathlib.Tactic.NormNum
import Mathlib.Tactic.Positivity

/-! What the readers of the multiplier menu emit, against the check of the supervisor. -/

namespace AfkClient.Multipliers

open Re

/-! ### Numbers and amounts -/

/-- `\d+(?:[.,]\d+)?` -/
def numberRe : Re := seq (some1 digit) (opt (seq separator (some1 digit)))

/-- The expression between the anchors of `progressText`. -/
def progressParts : List Re :=
  [Client.moneyText, lit "/", Client.moneyText, lit " - ", some1 digit,
    opt (.seq separator (some1 digit)), lit "%"]

theorem isDigit_of_mem_some1 {text : List Char} (h : text ∈ (some1 digit).language) :
    text ≠ [] ∧ ∀ c ∈ text, c.isDigit = true := mem_language_some1_set.mp h

/-- A number is a run of digits, or two of them with a separator between. -/
theorem mem_number {text : List Char} : text ∈ numberRe.language ↔
    (text ≠ [] ∧ ∀ c ∈ text, c.isDigit = true) ∨
    ∃ whole c decimals, text = whole ++ c :: decimals ∧ RustBot.isSeparator c = true ∧
      (whole ≠ [] ∧ ∀ c ∈ whole, c.isDigit = true) ∧
      (decimals ≠ [] ∧ ∀ c ∈ decimals, c.isDigit = true) := by
  rw [numberRe, mem_language_seq]
  constructor
  · rintro ⟨whole, hwhole, rest, hrest, rfl⟩
    have hwhole := isDigit_of_mem_some1 hwhole
    rcases mem_language_opt.mp hrest with hrest | rfl
    · obtain ⟨_, ⟨c, hc, rfl⟩, decimals, hdecimals, rfl⟩ := mem_language_seq.mp hrest
      exact .inr ⟨whole, c, decimals, rfl, hc, hwhole, isDigit_of_mem_some1 hdecimals⟩
    · rw [List.append_nil]
      exact .inl hwhole
  · rintro (h | ⟨whole, c, decimals, rfl, hc, hwhole, hdecimals⟩)
    · exact ⟨text, mem_language_some1_set.mpr h, [], .inr rfl, List.append_nil text⟩
    · exact ⟨whole, mem_language_some1_set.mpr hwhole, c :: decimals,
        .inl (mem_language_seq.mpr ⟨[c], ⟨c, hc, rfl⟩, decimals,
          mem_language_some1_set.mpr hdecimals, rfl⟩), rfl⟩

/-- An amount as the readers write it: digits and separators, and perhaps a unit. -/
def Money (text : List Char) : Prop :=
  ∃ digits unit, text = digits ++ unit ∧ digits.head?.any Char.isDigit = true ∧
    (∀ c ∈ digits, (c.isDigit || RustBot.isSeparator c) = true) ∧
    (unit = [] ∨ ∃ c ∈ factorLetters, unit = [c])

theorem money_mem {text : List Char} (h : Money text) :
    text ++ ['$'] ∈ Client.moneyText.language := by
  obtain ⟨digits, unit, rfl, hhead, hdigits, hunit⟩ := h
  cases digits with
  | nil => simp at hhead
  | cons d digits =>
      refine mem_language_seq.mpr ⟨[d], ⟨d, by simpa using hhead, rfl⟩, digits ++ (unit ++ ['$']),
        mem_language_seq.mpr ⟨digits, ?_, unit ++ ['$'], mem_language_seq.mpr ⟨unit, ?_, ['$'], ?_,
          rfl⟩, rfl⟩, by simp⟩
      · refine mem_language_many_set.mpr fun c hc => ?_
        simpa [RustBot.isSeparator, Bool.or_assoc] using hdigits c (by simp [hc])
      · rcases hunit with rfl | ⟨c, hc, rfl⟩
        · exact .inr rfl
        · refine .inl ⟨c, ?_, rfl⟩
          simp only [factorLetters, List.mem_cons, List.not_mem_nil, or_false] at hc
          rcases hc with rfl | rfl | rfl | rfl <;> decide
      · exact mem_language_seq.mpr ⟨['$'], (mem_language_lit ['$'] ['$']).mpr rfl, [], rfl, rfl⟩

/-- An amount of the check ends with its only dollar sign. -/
theorem of_mem_money {text : List Char} (h : text ∈ Client.moneyText.language) :
    ∃ amount, text = amount ++ ['$'] ∧ '$' ∉ amount := by
  obtain ⟨_, ⟨d, hd, rfl⟩, _, h₁, rfl⟩ := mem_language_seq.mp h
  obtain ⟨digits, hdigits, _, h₂, rfl⟩ := mem_language_seq.mp h₁
  obtain ⟨unit, hunit, _, h₃, rfl⟩ := mem_language_seq.mp h₂
  obtain ⟨dollar, hdollar, _, rfl, rfl⟩ := mem_language_seq.mp h₃
  have hdollar : dollar = ['$'] := (mem_language_lit ['$'] dollar).mp hdollar
  subst hdollar
  refine ⟨[d] ++ (digits ++ unit), by simp, ?_⟩
  rw [List.mem_append, List.mem_append]
  rintro (h | h | h)
  · rw [← List.mem_singleton.mp h] at hd
    exact absurd hd (by decide)
  · exact absurd (mem_language_many_set.mp hdigits _ h) (by decide)
  · rcases mem_language_opt.mp hunit with ⟨c, hc, rfl⟩ | rfl
    · rw [← List.mem_singleton.mp h] at hc
      exact absurd hc (by decide)
    · cases h

/-! ### The check of the supervisor -/

theorem multiplierText_test {text : List Char} : Client.multiplierText.test text = true ↔
    ∃ number ∈ numberRe.language, ∃ c ∈ ['x', 'X', '×'], text = number ++ [c] := by
  have hparts : ∀ r ∈ [some1 digit, opt (.seq separator (some1 digit)),
      .set (· ∈ ['x', 'X', '×'])], Re.anchorless r = true := by
    simp [some1, many, opt, digit, separator, anchorless]
  refine (test_anchored hparts text).trans ?_
  constructor
  · intro h
    obtain ⟨whole, hwhole, _, h₁, rfl⟩ := mem_language_seq.mp h
    obtain ⟨rest, hrest, _, h₂, rfl⟩ := mem_language_seq.mp h₁
    obtain ⟨_, ⟨c, hc, rfl⟩, _, rfl, rfl⟩ := mem_language_seq.mp h₂
    exact ⟨whole ++ rest, mem_language_seq.mpr ⟨whole, hwhole, rest, hrest, rfl⟩, c,
      by simpa using hc, by simp⟩
  · rintro ⟨_, hnumber, c, hc, rfl⟩
    obtain ⟨whole, hwhole, rest, hrest, rfl⟩ := mem_language_seq.mp hnumber
    refine mem_language_seq.mpr ⟨whole, hwhole, rest ++ [c], mem_language_seq.mpr ⟨rest, hrest, [c],
      mem_language_seq.mpr ⟨[c], ⟨c, by simpa using hc, rfl⟩, [], rfl, rfl⟩, rfl⟩, by simp⟩

/-- The text of a progress. -/
def progressText (current target percent : List Char) : List Char :=
  current ++ "$/".toList ++ target ++ "$ - ".toList ++ percent ++ ['%']

theorem progressText_test_iff {text : List Char} : Client.progressText.test text = true ↔
    ∃ current ∈ Client.moneyText.language, ∃ target ∈ Client.moneyText.language,
      ∃ percent ∈ numberRe.language,
        text = current ++ '/' :: (target ++ ([' ', '-', ' '] ++ (percent ++ ['%']))) := by
  have hparts : ∀ r ∈ progressParts, r.anchorless = true := by
    simp [progressParts, Client.moneyText, seqs, lit, some1, many, opt, digit, separator,
      anchorless]
  refine (test_anchored hparts text).trans ?_
  constructor
  · intro h
    obtain ⟨current, hcurrent, _, h₁, rfl⟩ := mem_language_seq.mp h
    obtain ⟨slash, hslash, _, h₂, rfl⟩ := mem_language_seq.mp h₁
    obtain ⟨target, htarget, _, h₃, rfl⟩ := mem_language_seq.mp h₂
    obtain ⟨dash, hdash, _, h₄, rfl⟩ := mem_language_seq.mp h₃
    obtain ⟨whole, hwhole, _, h₅, rfl⟩ := mem_language_seq.mp h₄
    obtain ⟨rest, hrest, _, h₆, rfl⟩ := mem_language_seq.mp h₅
    obtain ⟨sign, hsign, _, rfl, rfl⟩ := mem_language_seq.mp h₆
    rw [(mem_language_lit ['/'] slash).mp hslash,
      (mem_language_lit [' ', '-', ' '] dash).mp hdash, (mem_language_lit ['%'] sign).mp hsign]
    exact ⟨current, hcurrent, target, htarget, whole ++ rest,
      mem_language_seq.mpr ⟨whole, hwhole, rest, hrest, rfl⟩, by simp⟩
  · rintro ⟨current, hcurrent, target, htarget, _, hpercent, rfl⟩
    obtain ⟨whole, hwhole, rest, hrest, rfl⟩ := mem_language_seq.mp hpercent
    refine mem_language_seq.mpr ⟨current, hcurrent, _, mem_language_seq.mpr ⟨['/'],
      (mem_language_lit ['/'] _).mpr rfl, _, mem_language_seq.mpr ⟨target, htarget, _,
        mem_language_seq.mpr ⟨[' ', '-', ' '], (mem_language_lit [' ', '-', ' '] _).mpr rfl, _,
          mem_language_seq.mpr ⟨whole, hwhole, _, mem_language_seq.mpr ⟨rest, hrest, _,
            mem_language_seq.mpr ⟨['%'], (mem_language_lit ['%'] _).mpr rfl, [], rfl, rfl⟩, rfl⟩,
            rfl⟩, rfl⟩, rfl⟩, rfl⟩, ?_⟩
    simp

/-- Two texts agree up to their first mark and behind it. -/
theorem cut_eq {a b s t : List Char} {c : Char} (ha : c ∉ a) (hb : c ∉ b)
    (h : a ++ c :: s = b ++ c :: t) : a = b ∧ s = t := by
  induction a generalizing b with
  | nil =>
      cases b with
      | nil => simpa using h
      | cons d b =>
          obtain ⟨rfl, -⟩ : c = d ∧ s = b ++ c :: t := by simpa using h
          simp at hb
  | cons d a ih =>
      cases b with
      | nil =>
          obtain ⟨rfl, -⟩ : d = c ∧ a ++ c :: s = t := by simpa using h
          simp at ha
      | cons e b =>
          obtain ⟨rfl, hrest⟩ : d = e ∧ a ++ c :: s = b ++ c :: t := by simpa using h
          simp only [List.mem_cons, not_or] at ha hb
          obtain ⟨rfl, rfl⟩ := ih ha.2 hb.2 hrest
          exact ⟨rfl, rfl⟩

theorem Money.not_mem {text : List Char} (h : Money text) : '$' ∉ text := by
  obtain ⟨amount, heq, hamount⟩ := of_mem_money (money_mem h)
  rwa [List.append_cancel_right heq]

/-- A progress of two amounts passes exactly if its percentage is a number. -/
theorem progressText_test {current target percent : List Char} (hcurrent : Money current)
    (htarget : Money target) : Client.progressText.test (progressText current target percent) = true ↔
      percent ∈ numberRe.language := by
  rw [progressText_test_iff]
  constructor
  · rintro ⟨c, hc, t, ht, p, hp, heq⟩
    obtain ⟨c, rfl, hcdollar⟩ := of_mem_money hc
    obtain ⟨t, rfl, htdollar⟩ := of_mem_money ht
    have heq : current ++ '$' :: ('/' :: (target ++ '$' :: ([' ', '-', ' '] ++ (percent ++ ['%'])))) =
        c ++ '$' :: ('/' :: (t ++ '$' :: ([' ', '-', ' '] ++ (p ++ ['%'])))) := by
      simpa [progressText] using heq
    obtain ⟨-, heq⟩ := cut_eq hcurrent.not_mem hcdollar heq
    obtain ⟨-, heq⟩ := cut_eq htarget.not_mem htdollar (List.cons.inj heq).2
    rwa [List.append_cancel_right (List.append_cancel_left heq)]
  · intro hpercent
    exact ⟨_, money_mem hcurrent, _, money_mem htarget, percent, hpercent, by simp [progressText]⟩

/-! ### Lengths -/

/-- One UTF-16 unit. -/
def Narrow (text : List Char) : Prop := ∀ c ∈ text, c.val < 0x10000

theorem utf16Length_of_narrow {text : List Char} (h : Narrow text) :
    Client.utf16Length (.ofList text) = text.length := by
  rw [Client.utf16Length, String.toList_ofList]
  induction text with
  | nil => rfl
  | cons c text ih =>
      have hc := h c (by simp)
      rw [List.map_cons, List.sum_cons, if_pos hc, ih fun d hd => h d (by simp [hd]),
        List.length_cons, Nat.add_comm]

theorem narrow_of_all {text : List Char}
    (h : (text.all fun c => decide (c.val < 0x10000)) = true) : Narrow text :=
  fun c hc => of_decide_eq_true (List.all_eq_true.mp h c hc)

theorem narrow_append {text text' : List Char} (h : Narrow text) (h' : Narrow text') :
    Narrow (text ++ text') := by
  intro c hc
  rcases List.mem_append.mp hc with hc | hc
  · exact h c hc
  · exact h' c hc

theorem narrow_of_isDigit {c : Char} (h : c.isDigit = true) : c.val < 0x10000 := by
  simp only [Char.isDigit, Bool.and_eq_true, decide_eq_true_eq] at h
  have hle : c.val.toNat ≤ 57 := UInt32.le_iff_toNat_le.mp h.2
  exact UInt32.lt_iff_toNat_lt.mpr (lt_of_le_of_lt hle (by decide))

theorem narrow_of_isSeparator {c : Char} (h : RustBot.isSeparator c = true) : c.val < 0x10000 := by
  simp only [RustBot.isSeparator, Bool.or_eq_true, beq_iff_eq] at h
  rcases h with rfl | rfl <;> decide

theorem narrow_number {text : List Char}
    (h : ∀ c ∈ text, (c.isDigit || RustBot.isSeparator c) = true) : Narrow text := by
  intro c hc
  rcases Bool.or_eq_true_iff.mp (h c hc) with hc | hc
  · exact narrow_of_isDigit hc
  · exact narrow_of_isSeparator hc

theorem number_chars {text : List Char} (h : text ∈ numberRe.language) :
    ∀ c ∈ text, (c.isDigit || RustBot.isSeparator c) = true := by
  intro c hc
  rw [Bool.or_eq_true]
  rcases mem_number.mp h with ⟨-, h⟩ | ⟨whole, d, decimals, rfl, hd, ⟨-, hwhole⟩, -, hdecimals⟩
  · exact .inl (h c hc)
  · rcases List.mem_append.mp hc with hc | hc
    · exact .inl (hwhole c hc)
    · rcases List.mem_cons.mp hc with rfl | hc
      · exact .inr hd
      · exact .inl (hdecimals c hc)

theorem Money.narrow {text : List Char} (h : Money text) : Narrow text := by
  obtain ⟨digits, unit, rfl, -, hdigits, hunit⟩ := h
  refine narrow_append (narrow_number hdigits) ?_
  rcases hunit with rfl | ⟨c, hc, rfl⟩
  · simp [Narrow]
  · intro d hd
    rw [List.mem_singleton.mp hd]
    simp only [factorLetters, List.mem_cons, List.not_mem_nil, or_false] at hc
    rcases hc with rfl | rfl | rfl | rfl <;> decide

theorem length_progressText {current target percent : List Char} (hcurrent : Money current)
    (htarget : Money target)
    (hpercent : ∀ c ∈ percent, (c.isDigit || RustBot.isSeparator c) = true) :
    Client.utf16Length (.ofList (progressText current target percent)) =
      current.length + target.length + percent.length + 7 := by
  have hslash : Narrow "$/".toList := narrow_of_all (by decide)
  have hdash : Narrow "$ - ".toList := narrow_of_all (by decide)
  have hsign : Narrow ['%'] := narrow_of_all (by decide)
  have hmoney := narrow_append (narrow_append hcurrent.narrow hslash) htarget.narrow
  have hnarrow := narrow_append (narrow_append (narrow_append hmoney hdash)
    (narrow_number hpercent)) hsign
  rw [progressText, utf16Length_of_narrow hnarrow]
  simp only [List.length_append, List.length_singleton]
  have hslash : "$/".toList.length = 2 := by decide
  have hdash : "$ - ".toList.length = 4 := by decide
  omega

/-! ### Amounts as the readers take them -/

theorem money_of {digits unit : List Char} (hhead : digits.head?.any Char.isDigit = true)
    (hdigits : ∀ c ∈ digits, (c.isDigit || RustBot.isSeparator c) = true)
    (hlength : digits.length ≤ 32) (hunit : unit = [] ∨ ∃ c ∈ factorLetters, unit = [c]) :
    Money (digits ++ unit) ∧ (digits ++ unit).length ≤ 33 := by
  refine ⟨⟨digits, unit, rfl, hhead, hdigits, hunit⟩, ?_⟩
  rw [List.length_append]
  rcases hunit with rfl | ⟨c, -, rfl⟩
  · rw [List.length_nil]
    omega
  · rw [List.length_singleton]
    omega

theorem unit_of {unit : List Char}
    (h : ¬(unit ≠ [] ∧ ¬(unit.length = 1 ∧ unit.all fun c => c.toUpper ∈ factorLetters))) :
    unit.map Char.toUpper = [] ∨ ∃ c ∈ factorLetters, unit.map Char.toUpper = [c] := by
  by_cases hempty : unit = []
  · exact .inl (by rw [hempty, List.map_nil])
  · obtain ⟨hlength, hletter⟩ := not_not.mp (not_and.mp h hempty)
    obtain ⟨c, rfl⟩ := List.length_eq_one_iff.mp hlength
    exact .inr ⟨c.toUpper, by simpa using hletter, rfl⟩

theorem amount_spec {input : List Char} {a : Amount} (h : amount input = some a) :
    Money a.text ∧ a.text.length ≤ 33 := by
  unfold amount at h
  split at h
  all_goals
    dsimp only at h
    split at h
    · simp at h
    · rename_i hdigits
      split at h
      · simp at h
      · rename_i hunit
        obtain rfl := Option.some.inj h
        simp only [Bool.or_eq_true, Bool.not_eq_true', decide_eq_true_eq, not_or,
          Bool.not_eq_false] at hdigits
        refine money_of hdigits.1 ?_ (by omega) ?_
        · intro c hc
          simpa [RustBot.isSeparator, Bool.or_assoc] using List.mem_takeWhile_imp hc
        · exact unit_of hunit

theorem head_takeWhile {text : List Char} (h : text.head?.any Char.isDigit = true) :
    (text.takeWhile fun c => c.isDigit || RustBot.isSeparator c).head?.any Char.isDigit = true := by
  cases text with
  | nil => simp at h
  | cons c text =>
      have hc : c.isDigit = true := by simpa using h
      simp [hc]

theorem unit_letter {unit : List Char} (h : ¬(unit ≠ [] ∧ unit ∉ [['K'], ['M'], ['B'], ['T']])) :
    unit = [] ∨ ∃ c ∈ factorLetters, unit = [c] := by
  by_cases hempty : unit = []
  · exact .inl hempty
  · have hmem := not_not.mp (not_and.mp h hempty)
    simp only [List.mem_cons, List.not_mem_nil, or_false] at hmem
    right
    rcases hmem with rfl | rfl | rfl | rfl <;> exact ⟨_, by decide, rfl⟩

theorem rust_amount_spec {input : List Char} {a : RustBot.Amount}
    (h : RustBot.amount input = some a) : Money a.text ∧ a.text.length ≤ 33 := by
  unfold RustBot.amount at h
  dsimp only at h
  split at h
  · simp at h
  · rename_i hhead
    split at h
    · simp at h
    · rename_i hlength
      split at h
      · simp at h
      · rename_i hunit
        obtain rfl := Option.some.inj h
        refine money_of (head_takeWhile (by simpa using hhead)) ?_ (by omega) ?_
        · intro c hc
          exact List.mem_takeWhile_imp (p := fun c => c.isDigit || RustBot.isSeparator c) hc
        · exact unit_letter hunit

/-! ### Percentages -/

theorem digits_percent : ∀ n : Fin 101, (toString (n.1 : ℤ)).toList ≠ [] ∧
    (toString (n.1 : ℤ)).toList.all Char.isDigit = true ∧
    (toString (n.1 : ℤ)).toList.length ≤ 10 := by
  decide +kernel

/-- A percentage that is computed is a number of at most three digits. -/
theorem flooredPercent_spec {current target : ℚ} (hcurrent : 0 ≤ current) (htarget : 0 < target) :
    flooredPercent current target ∈ numberRe.language ∧
      (flooredPercent current target).length ≤ 10 := by
  have hquotient : 0 ≤ current / target * 100 := by positivity
  have hlow : 0 ≤ (min 100 (current / target * 100)).floor := by
    exact Rat.le_floor_iff.mpr (le_min (by norm_num) hquotient)
  have hhigh : (min 100 (current / target * 100)).floor ≤ 100 := by
    have hle : ((min 100 (current / target * 100)).floor : ℚ) ≤ 100 :=
      (Rat.floor_le _).trans (min_le_left _ _)
    exact_mod_cast hle
  obtain ⟨n, hn⟩ := Int.eq_ofNat_of_zero_le hlow
  rw [hn] at hhigh
  obtain ⟨hne, hdigits, hlength⟩ := digits_percent ⟨n, by omega⟩
  rw [flooredPercent, hn]
  exact ⟨mem_number.mpr (.inl ⟨hne, by simpa using hdigits⟩), hlength⟩

theorem decimalValue_nonneg (whole decimals : List Char) : 0 ≤ decimalValue whole decimals := by
  unfold decimalValue
  positivity

theorem moneyFactor_nonneg (c : Char) : 0 ≤ moneyFactor c := by
  unfold moneyFactor
  split <;> norm_num

theorem unitFactor_nonneg (unit : Option Char) :
    0 ≤ (unit.map fun c => moneyFactor c.toUpper).getD 1 := by
  cases unit with
  | none => simp
  | some c => exact moneyFactor_nonneg _

theorem money_nonneg {input : List Char} {v : ℚ} (h : money input = some v) : 0 ≤ v := by
  unfold money at h
  extract_lets unit value factor pieces at h
  have hfactor : 0 ≤ factor := unitFactor_nonneg unit
  clear_value pieces factor
  split at h
  · cases h
  · split at h
    · obtain rfl := Option.some.inj h
      exact mul_nonneg (decimalValue_nonneg _ _) hfactor
    · split at h
      · split at h
        · obtain rfl := Option.some.inj h
          positivity
        · obtain rfl := Option.some.inj h
          exact mul_nonneg (decimalValue_nonneg _ _) hfactor
      · obtain rfl := Option.some.inj h
        exact mul_nonneg (by positivity) hfactor
      · split at h
        · obtain rfl := Option.some.inj h
          exact mul_nonneg (by positivity) hfactor
        · cases h

theorem parseFloat_nonneg {text : List Char} {v : ℚ} (h : RustBot.parseFloat text = some v) :
    0 ≤ v := by
  unfold RustBot.parseFloat at h
  split at h
  · split at h
    · cases h
    · obtain rfl := Option.some.inj h
      exact decimalValue_nonneg _ _
  · split at h
    · cases h
    · obtain rfl := Option.some.inj h
      exact decimalValue_nonneg _ _
  · cases h

theorem rust_money_nonneg {input : List Char} {v : ℚ} (h : RustBot.money input = some v) :
    0 ≤ v := by
  unfold RustBot.money at h
  extract_lets unit value factor pieces normalized at h
  split at h
  · cases h
  · obtain ⟨w, hw, rfl⟩ := Option.map_eq_some_iff.mp h
    exact mul_nonneg (parseFloat_nonneg hw) (unitFactor_nonneg unit)

theorem percentage_spec {line raw : List Char} (h : percentage line = some raw) :
    raw ∈ numberRe.language ∧ raw.length ≤ 10 := by
  obtain ⟨captured, hcapture, h⟩ := Option.bind_eq_some_iff.mp h
  dsimp only at h
  split at h
  · simp at h
  · rename_i hlength
    split at h
    · obtain rfl := Option.some.inj h
      refine ⟨?_, by omega⟩
      exact @capture_mem numberRe [_] [_, _] 1 _ _ rfl rfl hcapture
    · cases h

/-! ### The TypeScript reader -/

/-- What an emitted progress consists of. -/
structure Parts (text current target percent : List Char) : Prop where
  text_eq : text = progressText current target percent
  current : Money current ∧ current.length ≤ 33
  target : Money target ∧ target.length ≤ 33
  percent : (∀ c ∈ percent, (c.isDigit || RustBot.isSeparator c) = true) ∧ percent.length ≤ 10

/-- It is short enough, and right if its percentage is. -/
theorem Parts.valid_iff {text current target percent : List Char}
    (h : Parts text current target percent) :
    Client.utf16Length (.ofList text) ≤ 96 ∧
      (Client.progressText.test text = true ↔ percent ∈ numberRe.language) := by
  have hcurrent := h.current.2
  have htarget := h.target.2
  have hpercent := h.percent.2
  rw [h.text_eq]
  refine ⟨?_, progressText_test h.current.1 h.target.1⟩
  rw [length_progressText h.current.1 h.target.1 h.percent.1]
  omega

theorem progressOf_spec {line text : List Char} {below : List (List Char)}
    (h : progressOf line below = some text) : ∃ current target percent,
      Parts text current target percent ∧ percent ∈ numberRe.language := by
  unfold progressOf at h
  simp only [Option.bind_eq_bind, Option.bind_eq_some_iff] at h
  obtain ⟨found, -, leftText, -, left, hleft, h⟩ := h
  split at h
  · simp at h
  · simp only [Option.bind_eq_some_iff] at h
    obtain ⟨rightText, -, right, hright, current, hcurrent, target, htarget, percent, hpercent,
      h⟩ := h
    obtain rfl := Option.some.inj h
    have hnumber : percent ∈ numberRe.language ∧ percent.length ≤ 10 := by
      rcases Option.or_eq_some_iff.mp hpercent with hpercent | ⟨-, hpercent⟩
      · rcases Option.or_eq_some_iff.mp hpercent with hpercent | ⟨-, hpercent⟩
        · exact percentage_spec hpercent
        · exact percentage_spec hpercent
      · split at hpercent
        · rename_i hpos
          obtain rfl := Option.some.inj hpercent
          exact flooredPercent_spec (money_nonneg hcurrent) hpos
        · cases hpercent
    exact ⟨left.text, right.text, percent, ⟨rfl, amount_spec hleft, amount_spec hright,
      number_chars hnumber.1, hnumber.2⟩, hnumber.1⟩

theorem readProgress_spec {lines : List (List Char)} {text : List Char}
    (h : readProgress lines = some text) : ∃ current target percent,
      Parts text current target percent ∧ percent ∈ numberRe.language := by
  induction lines with
  | nil => cases h
  | cons line below ih =>
      rcases Option.or_eq_some_iff.mp h with h | ⟨-, h⟩
      · exact progressOf_spec h
      · exact ih h

/-- `\d+(?:[.,]\d+)?[x×]` -/
def factorRe : Re :=
  seqs [some1 digit, opt (seq separator (some1 digit)), set (· ∈ ['x', 'X', '×'])]

theorem factor_mem {text : List Char} (h : text ∈ factorRe.language) :
    ∃ number ∈ numberRe.language, ∃ c ∈ ['x', 'X', '×'], text = number ++ [c] := by
  obtain ⟨whole, hwhole, _, h₁, rfl⟩ := mem_language_seq.mp h
  obtain ⟨rest, hrest, _, h₂, rfl⟩ := mem_language_seq.mp h₁
  obtain ⟨_, ⟨c, hc, rfl⟩, _, rfl, rfl⟩ := mem_language_seq.mp h₂
  exact ⟨whole ++ rest, mem_language_seq.mpr ⟨whole, hwhole, rest, hrest, rfl⟩, c,
    by simpa using hc, by simp⟩

theorem multiplierRe_mem {line text : List Char} (h : multiplierRe.capture 1 line = some text) :
    text ∈ factorRe.language :=
  @capture_mem factorRe [_, _, _, _, _] [_, _] 1 _ _ rfl rfl h

theorem narrow_multiplier {number : List Char} (h : number ∈ numberRe.language) {c : Char}
    (hc : c ∈ ['x', 'X', '×']) : Narrow (number ++ [c]) := by
  refine narrow_append (narrow_number (number_chars h)) ?_
  intro d hd
  rw [List.mem_singleton.mp hd]
  simp only [List.mem_cons, List.not_mem_nil, or_false] at hc
  rcases hc with rfl | rfl | rfl <;> decide

theorem trim_eq_nil_iff {text : List Char} :
    Text.trim text = [] ↔ ∀ c ∈ text, Text.isSpace c = true := by
  rw [Text.trim, List.reverse_eq_nil_iff, Text.trimStart, List.dropWhile_eq_nil_iff]
  simp only [List.mem_reverse]
  constructor
  · intro h
    by_contra hne
    have hstart : Text.trimStart text ≠ [] := fun heq => hne (List.dropWhile_eq_nil_iff.mp heq)
    have hhead := List.head_dropWhile_not Text.isSpace hstart
    have hspace := h _ (List.head_mem hstart)
    rw [← Bool.not_eq_true] at hhead
    exact hhead hspace
  · intro h c hc
    exact h c ((List.dropWhile_sublist _).subset hc)

/-- A text that was trimmed has a character that is not trimmed. -/
theorem trim_trim {text : List Char} (h : Text.trim text ≠ []) : Text.trim (Text.trim text) ≠ [] := by
  rw [Ne, trim_eq_nil_iff]
  intro hall
  have hstart : Text.trimStart (Text.trimStart text).reverse ≠ [] := by simpa [Text.trim] using h
  have hhead := List.head_dropWhile_not Text.isSpace hstart
  have hspace := hall _ (List.mem_reverse.mpr (List.head_mem hstart))
  rw [← Bool.not_eq_true] at hhead
  exact hhead hspace

theorem valid_iff (name multiplier progress : List Char) :
    Client.SellMultiplier.valid ⟨.ofList name, .ofList multiplier, .ofList progress⟩ = true ↔
      (Text.trim name ≠ [] ∧ Client.utf16Length (.ofList name) ≤ 256) ∧
      (Client.utf16Length (.ofList multiplier) ≤ 32 ∧ Client.multiplierText.test multiplier = true) ∧
      Client.utf16Length (.ofList progress) ≤ 96 ∧ Client.progressText.test progress = true := by
  simp only [Client.SellMultiplier.valid, String.toList_ofList]
  simp [and_assoc]

/-- What the reader of the supervisor's own bots emits is accepted. -/
theorem readMultiplier_valid {name : String} {lore : List String} {entry : SellMultiplier}
    (h : readMultiplier name lore = some entry) : Client.SellMultiplier.valid entry = true := by
  unfold readMultiplier at h
  extract_lets displayName lines rest at h
  split at h
  · simp at h
  · rename_i hname
    simp only [rest, Option.bind_eq_bind, Option.bind_eq_some_iff] at h
    obtain ⟨multiplier, hmultiplier, progress, hprogress, h⟩ := h
    split at h
    · rename_i hlength
      obtain rfl := Option.some.inj h
      rw [not_or, not_lt] at hname
      obtain ⟨line, -, hline⟩ := List.exists_of_findSome?_eq_some hmultiplier
      obtain ⟨number, hnumber, c, hc, hmul⟩ := factor_mem (multiplierRe_mem hline)
      obtain ⟨current, target, percent, hparts, hpercent⟩ := readProgress_spec hprogress
      refine (valid_iff displayName multiplier progress).mpr ⟨⟨trim_trim hname.1, hname.2⟩, ⟨?_, ?_⟩,
        hparts.valid_iff.1, hparts.valid_iff.2.mpr hpercent⟩
      · rw [utf16Length_of_narrow (hmul ▸ narrow_multiplier hnumber hc)]
        exact hlength
      · exact multiplierText_test.mpr ⟨number, hnumber, c, hc, hmul⟩
    · cases h

/-! ### The Rust reader -/

/-- What the pieces between separators say about a text. -/
theorem split_cases {p : Char → Bool} (text : List Char) :
    (∃ piece, text.splitOnP p = [piece] ∧ text = piece ∧ ∀ c ∈ piece, p c = false) ∨
    ∃ piece c rest, text = piece ++ c :: rest ∧ p c = true ∧ (∀ c ∈ piece, p c = false) ∧
      text.splitOnP p = piece :: rest.splitOnP p := by
  induction text with
  | nil => exact .inl ⟨[], rfl, rfl, by simp⟩
  | cons c text ih =>
      rw [List.splitOnP_cons_eq_if_modifyHead]
      by_cases hc : p c = true
      · rw [if_pos hc]
        exact .inr ⟨[], c, text, rfl, hc, by simp, rfl⟩
      · rw [if_neg hc]
        rcases ih with ⟨piece, hsplit, rfl, hpiece⟩ | ⟨piece, d, rest, rfl, hd, hpiece, hsplit⟩
        · refine .inl ⟨c :: text, by rw [hsplit]; rfl, rfl, ?_⟩
          simpa [hc] using hpiece
        · refine .inr ⟨c :: piece, d, rest, rfl, hd, by simpa [hc] using hpiece, ?_⟩
          rw [hsplit]
          rfl

theorem splitOnP_length_pos {p : Char → Bool} (text : List Char) : 0 < (text.splitOnP p).length :=
  List.length_pos_of_ne_nil (List.splitOnP_ne_nil p text)

/-- At most one separator, and what stands around it. -/
theorem split_two {p : Char → Bool} {text : List Char} (h : (text.splitOnP p).length ≤ 2) :
    (text.splitOnP p = [text] ∧ ∀ c ∈ text, p c = false) ∨
    ∃ whole c rest, text = whole ++ c :: rest ∧ p c = true ∧ text.splitOnP p = [whole, rest] ∧
      (∀ c ∈ whole, p c = false) ∧ ∀ c ∈ rest, p c = false := by
  rcases split_cases (p := p) text with ⟨piece, hsplit, rfl, hpiece⟩ | ⟨piece, c, rest, rfl, hc,
    hpiece, hsplit⟩
  · exact .inl ⟨hsplit, hpiece⟩
  · rw [hsplit, List.length_cons] at h
    rcases split_cases (p := p) rest with ⟨last, hlast, rfl, hrest⟩ | ⟨last, d, more, rfl, -, -, hmore⟩
    · exact .inr ⟨piece, c, rest, rfl, hc, by rw [hsplit, hlast], hpiece, hrest⟩
    · have hpos := splitOnP_length_pos (p := p) more
      rw [hmore, List.length_cons] at h
      omega

/-- Commas for points change no piece of a text of digits. -/
theorem splitOn_point {text : List Char}
    (h : ∀ c ∈ text, (c.isDigit || RustBot.isSeparator c) = true) :
    (text.map fun c => if c = ',' then '.' else c).splitOn '.' = text.splitOnP RustBot.isSeparator := by
  rw [List.splitOn_eq_splitOnP]
  induction text with
  | nil => rfl
  | cons c text ih =>
      have ih := ih fun d hd => h d (by simp [hd])
      rw [List.map_cons, List.splitOnP_cons_eq_if_modifyHead, List.splitOnP_cons_eq_if_modifyHead, ih]
      by_cases hpoint : c = '.'
      · subst hpoint
        simp [RustBot.isSeparator]
      · by_cases hcomma : c = ','
        · subst hcomma
          simp [RustBot.isSeparator]
        · simp [RustBot.isSeparator, hpoint, hcomma]

/-- The text begins and ends with a digit. -/
def Clean (text : List Char) : Prop :=
  text.head?.any Char.isDigit = true ∧ text.getLast?.any Char.isDigit = true

theorem clean_of_digits {text : List Char} (hne : text ≠ []) (h : ∀ c ∈ text, c.isDigit = true) :
    Clean text := by
  constructor
  · rw [List.head?_eq_some_head hne, Option.any_some]
    exact h _ (List.head_mem hne)
  · rw [List.getLast?_eq_some_getLast hne, Option.any_some]
    exact h _ (List.getLast_mem hne)

theorem number_clean {text : List Char} (h : text ∈ numberRe.language) : Clean text := by
  rcases mem_number.mp h with ⟨hne, h⟩ | ⟨whole, c, decimals, rfl, -, ⟨hwhole, hw⟩, hdecimals, hd⟩
  · exact clean_of_digits hne h
  · constructor
    · rw [List.head?_append_of_ne_nil whole hwhole]
      exact (clean_of_digits hwhole hw).1
    · rw [List.getLast?_append_cons, List.getLast?_cons, List.getLast?_eq_some_getLast hdecimals]
      simpa using hd _ (List.getLast_mem hdecimals)

theorem not_digit_of_isSeparator {c : Char} (h : RustBot.isSeparator c = true) :
    c.isDigit = false := by
  simp only [RustBot.isSeparator, Bool.or_eq_true, beq_iff_eq] at h
  rcases h with rfl | rfl <;> decide

theorem number_iff_clean {text : List Char} (hne : text ≠ [])
    (hchars : ∀ c ∈ text, (c.isDigit || RustBot.isSeparator c) = true)
    (hpieces : (text.splitOnP RustBot.isSeparator).length ≤ 2) :
    text ∈ numberRe.language ↔ Clean text := by
  have hdigit : ∀ c ∈ text, RustBot.isSeparator c = false → c.isDigit = true := by
    intro c hc hsep
    simpa [hsep] using hchars c hc
  refine ⟨number_clean, fun hclean => mem_number.mpr ?_⟩
  rcases split_two hpieces with ⟨-, hnone⟩ | ⟨whole, c, rest, rfl, hc, -, hwhole, hrest⟩
  · exact .inl ⟨hne, fun c hc => hdigit c hc (hnone c hc)⟩
  · have hnot := not_digit_of_isSeparator hc
    refine .inr ⟨whole, c, rest, rfl, hc, ⟨?_, ?_⟩, ?_, ?_⟩
    · rintro rfl
      simpa [hnot] using hclean.1
    · exact fun d hd => hdigit d (by simp [hd]) (hwhole d hd)
    · rintro rfl
      simpa [hnot] using hclean.2
    · exact fun d hd => hdigit d (by simp [hd]) (hrest d hd)

theorem shownPercent_chars {line : List Char} :
    ∀ c ∈ RustBot.shownPercent line, (c.isDigit || RustBot.isSeparator c) = true := by
  intro c hc
  rw [RustBot.shownPercent, List.mem_reverse] at hc
  exact List.mem_takeWhile_imp (p := fun c => c.isDigit || RustBot.isSeparator c) hc

theorem parseFloat_pieces {text : List Char} {v : ℚ} (h : RustBot.parseFloat text = some v) :
    (text.splitOn '.').length ≤ 2 := by
  unfold RustBot.parseFloat at h
  split at h
  · rename_i heq
    simp [heq]
  · rename_i heq
    simp [heq]
  · cases h

/-- A percentage of the Rust reader is a number exactly if it begins and ends with a digit. -/
theorem rust_percentage_spec {line text : List Char} (h : RustBot.percentage line = some text) :
    text = RustBot.shownPercent line ∧ text.length ≤ 10 ∧
      (text ∈ numberRe.language ↔ Clean text) := by
  unfold RustBot.percentage at h
  split at h
  · simp at h
  · extract_lets shown rest check at h
    simp only [check] at h
    split at h
    · simp at h
    · rename_i hshown
      simp only [rest, Option.bind_eq_bind, Option.bind_eq_some_iff] at h
      obtain ⟨value, hvalue, h⟩ := h
      split at h
      · obtain rfl := Option.some.inj h
        rw [not_or, not_lt] at hshown
        have hpieces := parseFloat_pieces hvalue
        rw [splitOn_point shownPercent_chars] at hpieces
        exact ⟨rfl, hshown.2, number_iff_clean hshown.1 shownPercent_chars hpieces⟩
      · cases h

/-- The percentage that decides the progress, if the menu shows one, begins and ends with a
digit. -/
def PercentShown : List (List Char) → Prop
  | [] => True
  | line :: below =>
      match RustBot.progressLine line with
      | none => PercentShown below
      | some p =>
          if (RustBot.percentage p.trailing).isSome then Clean (RustBot.shownPercent p.trailing)
          else if (RustBot.percentage (RustBot.followingLine below)).isSome then
            Clean (RustBot.shownPercent (RustBot.followingLine below))
          else 0 < p.target ∨ PercentShown below

theorem progressLine_spec {line : List Char} {p : RustBot.Progress}
    (h : RustBot.progressLine line = some p) : (Money p.currentText ∧ p.currentText.length ≤ 33) ∧
      (Money p.targetText ∧ p.targetText.length ≤ 33) ∧ 0 ≤ p.current := by
  unfold RustBot.progressLine at h
  simp only [Option.bind_eq_bind, Option.bind_eq_some_iff] at h
  obtain ⟨value, -, h⟩ := h
  split at h
  · simp at h
  · simp only [Option.bind_eq_some_iff] at h
    obtain ⟨left, hleft, h⟩ := h
    split at h
    · simp at h
    · simp only [Option.bind_eq_some_iff] at h
      obtain ⟨right, hright, current, hcurrent, target, -, h⟩ := h
      obtain rfl := Option.some.inj h
      exact ⟨rust_amount_spec hleft, rust_amount_spec hright, rust_money_nonneg hcurrent⟩

/-- Of the three sources of a percentage, the one that is taken decides. -/
theorem percent_spec {line percent : List Char} {below : List (List Char)} {p : RustBot.Progress}
    (hline : RustBot.progressLine line = some p) (h : p.percent below = some percent) :
    (∀ c ∈ percent, (c.isDigit || RustBot.isSeparator c) = true) ∧ percent.length ≤ 10 ∧
      (percent ∈ numberRe.language ↔ PercentShown (line :: below)) := by
  simp only [PercentShown, hline]
  unfold RustBot.Progress.percent at h
  cases htrailing : RustBot.percentage p.trailing with
  | some shown =>
      rw [htrailing, Option.some_or, Option.some_or] at h
      obtain rfl := Option.some.inj h
      obtain ⟨hshown, hlength, hclean⟩ := rust_percentage_spec htrailing
      rw [Option.isSome_some, if_pos rfl, ← hshown]
      exact ⟨hshown ▸ shownPercent_chars, hlength, hclean⟩
  | none =>
      rw [htrailing, Option.none_or] at h
      rw [Option.isSome_none, if_neg Bool.false_ne_true]
      cases hbelow : RustBot.percentage (RustBot.followingLine below) with
      | some shown =>
          rw [hbelow, Option.some_or] at h
          obtain rfl := Option.some.inj h
          obtain ⟨hshown, hlength, hclean⟩ := rust_percentage_spec hbelow
          rw [Option.isSome_some, if_pos rfl, ← hshown]
          exact ⟨hshown ▸ shownPercent_chars, hlength, hclean⟩
      | none =>
          rw [hbelow, Option.none_or] at h
          rw [Option.isSome_none, if_neg Bool.false_ne_true]
          split at h
          · rename_i hpos
            obtain rfl := Option.some.inj h
            have hnumber := flooredPercent_spec (progressLine_spec hline).2.2 hpos
            exact ⟨number_chars hnumber.1, hnumber.2, iff_of_true hnumber.1 (.inl hpos)⟩
          · cases h

/-- A line without a percentage leaves the decision to the lines below. -/
theorem percentShown_cons {line : List Char} {below : List (List Char)}
    (h : ∀ p, RustBot.progressLine line = some p → p.percent below = none) :
    PercentShown (line :: below) ↔ PercentShown below := by
  rw [PercentShown]
  cases hline : RustBot.progressLine line with
  | none => exact Iff.rfl
  | some p =>
      have hnone := h p hline
      simp only [RustBot.Progress.percent, Option.or_eq_none_iff] at hnone
      obtain ⟨⟨htrailing, hbelow⟩, htarget⟩ := hnone
      have hpos : ¬0 < p.target := by
        intro hpos
        rw [if_pos hpos] at htarget
        cases htarget
      simp [htrailing, hbelow, hpos]

theorem rust_readProgress_spec {lines : List (List Char)} {text : List Char}
    (h : RustBot.readProgress lines = some text) : ∃ current target percent,
      Parts text current target percent ∧ (percent ∈ numberRe.language ↔ PercentShown lines) := by
  induction lines with
  | nil => cases h
  | cons line below ih =>
      rw [RustBot.readProgress] at h
      cases hread : (RustBot.progressLine line).bind fun p => (p.percent below).map fun percent =>
          p.currentText ++ "$/".toList ++ p.targetText ++ "$ - ".toList ++ percent ++ ['%'] with
      | some progress =>
          rw [hread] at h
          obtain rfl := Option.some.inj h
          obtain ⟨p, hline, hmap⟩ := Option.bind_eq_some_iff.mp hread
          obtain ⟨percent, hpercent, rfl⟩ := Option.map_eq_some_iff.mp hmap
          obtain ⟨hcurrent, htarget, -⟩ := progressLine_spec hline
          obtain ⟨hchars, hlength, hnumber⟩ := percent_spec hline hpercent
          exact ⟨_, _, percent, ⟨rfl, hcurrent, htarget, hchars, hlength⟩, hnumber⟩
      | none =>
          rw [hread] at h
          rw [percentShown_cons]
          · exact ih h
          · intro p hline
            rw [hline, Option.bind_some, Option.map_eq_none_iff] at hread
            exact hread

theorem length_le_utf8Length (text : List Char) : text.length ≤ RustBot.utf8Length text := by
  induction text with
  | nil => exact le_rfl
  | cons c text ih =>
      have hc := c.utf8Size_pos
      simp only [RustBot.utf8Length, List.map_cons, List.sum_cons, List.length_cons] at ih ⊢
      omega

/-- At most two pieces, each of digits, are a number. -/
theorem number_of_pieces {text : List Char}
    (hpieces : (text.splitOnP RustBot.isSeparator).length ≤ 2)
    (hdigits : ∀ piece ∈ text.splitOnP RustBot.isSeparator,
      piece ≠ [] ∧ ∀ c ∈ piece, c.isDigit = true) : text ∈ numberRe.language := by
  rcases split_two hpieces with ⟨hsplit, -⟩ | ⟨whole, c, rest, rfl, hc, hsplit, -, -⟩
  · exact mem_number.mpr (.inl (hdigits text (by simp [hsplit])))
  · exact mem_number.mpr (.inr ⟨whole, c, rest, rfl, hc, hdigits whole (by simp [hsplit]),
      hdigits rest (by simp [hsplit])⟩)

theorem readLine_spec {line text : List Char} (h : RustBot.readLine line = some text) :
    Client.utf16Length (.ofList text) ≤ 32 ∧ Client.multiplierText.test text = true := by
  unfold RustBot.readLine at h
  simp only [Option.bind_eq_bind, Option.bind_eq_some_iff] at h
  obtain ⟨found, -, h⟩ := h
  generalize RustBot.trim found = value at h
  split at h
  · simp at h
  · rename_i hlast
    split at h
    · simp at h
    · rename_i hchecks
      obtain rfl := Option.some.inj h
      simp only [not_or, not_lt, List.any_eq_true, not_exists, not_and, Bool.or_eq_true,
        decide_eq_true_eq, Bool.not_eq_true', Bool.not_eq_false, List.all_eq_true] at hchecks
      obtain ⟨hlength, hpieces, hdigits⟩ := hchecks
      have hnumber : value.dropLast ∈ numberRe.language := number_of_pieces hpieces hdigits
      cases hend : value.getLast? with
      | none => simp [hend] at hlast
      | some c =>
          have hc : c ∈ ['x', 'X', '×'] := by
            simp only [hend, Option.any_some, Bool.not_eq_true', decide_eq_false_iff_not,
              not_not] at hlast
            exact hlast
          have hvalue : value = value.dropLast ++ [c] :=
            (List.dropLast_append_getLast? c hend).symm
          refine ⟨?_, multiplierText_test.mpr ⟨_, hnumber, c, hc, hvalue⟩⟩
          have hnarrow : Narrow value := by
            rw [hvalue]
            exact narrow_multiplier hnumber hc
          rw [utf16Length_of_narrow hnarrow]
          exact (length_le_utf8Length value).trans hlength

/-- The conditions on a tooltip under which the Rust reader's entry passes. -/
structure Acceptable (name : String) (lore : List String) : Prop where
  visible : Text.trim (RustBot.plainName name) ≠ []
  length : Client.utf16Length (.ofList (RustBot.plainName name)) ≤ 256
  percent : PercentShown (RustBot.plainLines lore)

theorem tooltip_valid_iff {name : String} {lore : List String} {entry : SellMultiplier}
    (h : RustBot.tooltip name lore = some entry) :
    Client.SellMultiplier.valid entry = true ↔ Acceptable name lore := by
  unfold RustBot.tooltip at h
  extract_lets displayName lines rest at h
  split at h
  · simp at h
  · simp only [rest, Option.bind_eq_bind, Option.bind_eq_some_iff] at h
    obtain ⟨progress, hprogress, multiplier, hmultiplier, h⟩ := h
    obtain rfl := Option.some.inj h
    obtain ⟨line, -, hline⟩ := List.exists_of_findSome?_eq_some hmultiplier
    obtain ⟨current, target, percent, hparts, hpercent⟩ := rust_readProgress_spec hprogress
    rw [valid_iff]
    constructor
    · rintro ⟨⟨hvisible, hlength⟩, -, -, htest⟩
      exact ⟨hvisible, hlength, hpercent.mp (hparts.valid_iff.2.mp htest)⟩
    · intro hacceptable
      exact ⟨⟨hacceptable.visible, hacceptable.length⟩, readLine_spec hline, hparts.valid_iff.1,
        hparts.valid_iff.2.mpr (hpercent.mpr hacceptable.percent)⟩

/-! ### Complete lists -/

/-- The check of the supervisor on a list of entries. -/
def Accepted (entries : List SellMultiplier) : Prop :=
  entries.length = 9 ∧ entries.all Client.SellMultiplier.valid = true

theorem forall₂_of_mapM {α β : Type*} {f : α → Option β} {as : List α} {bs : List β}
    (h : as.mapM f = some bs) : List.Forall₂ (fun a b => f a = some b) as bs := by
  induction as generalizing bs with
  | nil =>
      obtain rfl : [] = bs := by simpa using h
      exact .nil
  | cons a as ih =>
      simp only [List.mapM_cons, Option.bind_eq_bind, Option.bind_eq_some_iff] at h
      obtain ⟨b, hb, bs', hbs, h⟩ := h
      obtain rfl := Option.some.inj h
      exact .cons hb (ih hbs)

/-- If what is read passes exactly under a condition on its source, a list does. -/
theorem all_valid_iff {α : Type*} {f : α → Option SellMultiplier} {C : α → Prop}
    (hf : ∀ a entry, f a = some entry → (Client.SellMultiplier.valid entry = true ↔ C a))
    {as : List α} {entries : List SellMultiplier} (h : as.mapM f = some entries) :
    entries.length = as.length ∧
      (entries.all Client.SellMultiplier.valid = true ↔ ∀ a ∈ as, C a) := by
  have hentries := forall₂_of_mapM h
  clear h
  induction hentries with
  | nil => simp
  | @cons a entry as entries hentry _ ih =>
      refine ⟨by rw [List.length_cons, List.length_cons, ih.1], ?_⟩
      rw [List.all_cons, Bool.and_eq_true, hf a entry hentry, ih.2, List.forall_mem_cons]

theorem readTopRow_accepted_iff {slots : List RustBot.ItemStack} {entries : List SellMultiplier}
    (h : RustBot.readTopRow slots = some entries) : Accepted entries ↔
      ∀ stack ∈ slots.take 9,
        Acceptable (RustBot.itemTooltip stack).1 (RustBot.itemTooltip stack).2 := by
  unfold RustBot.readTopRow at h
  split at h
  · cases h
  · rename_i hslots
    obtain ⟨hlength, hvalid⟩ := all_valid_iff (fun _ _ => tooltip_valid_iff) h
    have hnine : (slots.take 9).length = 9 := by
      rw [List.length_take]
      omega
    rw [Accepted, hlength, hnine, hvalid]
    exact and_iff_right rfl

/-- What the readers emit, and when the check accepts it: always from the one reader, from the
other one exactly under a condition on names and percentages. -/
theorem readers_accepted (name : String) (lore : List String) (entry : SellMultiplier)
    (items : List (String × List String)) (slots : List RustBot.ItemStack)
    (entries : List SellMultiplier) :
    (readMultiplier name lore = some entry → Client.SellMultiplier.valid entry = true) ∧
    (items.length = 9 →
      items.mapM (fun item => readMultiplier item.1 item.2) = some entries → Accepted entries) ∧
    (RustBot.tooltip name lore = some entry →
      (Client.SellMultiplier.valid entry = true ↔ Acceptable name lore)) ∧
    (RustBot.readTopRow slots = some entries →
      (Accepted entries ↔ ∀ stack ∈ slots.take 9,
        Acceptable (RustBot.itemTooltip stack).1 (RustBot.itemTooltip stack).2)) := by
  refine ⟨readMultiplier_valid, ?_, tooltip_valid_iff, readTopRow_accepted_iff⟩
  intro hitems hentries
  obtain ⟨hlength, hvalid⟩ := all_valid_iff (C := fun _ => True)
    (fun _ _ h => iff_of_true (readMultiplier_valid h) trivial) hentries
  exact ⟨hlength.trans hitems, hvalid.mpr fun _ _ => trivial⟩

def landwirtschaft : SellMultiplier := ⟨"Landwirtschaft", "1.6x", "26,28M$/150M$ - 17%"⟩

theorem readers_accepted_landwirtschaft :
    Client.SellMultiplier.valid landwirtschaft = true ∧
      (Client.SellMultiplier.valid landwirtschaft = true ↔ Acceptable "Landwirtschaft"
        ["Aktueller Multiplikator: 1.6x", "Fortschritt: $26,28M / $150M", "[███░░] 17%"]) :=
  have accepted := readers_accepted "Landwirtschaft"
    ["Aktueller Multiplikator: 1.6x", "Fortschritt: $26,28M / $150M", "[███░░] 17%"] landwirtschaft
    [] [] []
  ⟨accepted.1 (by decide +kernel), accepted.2.2.1 (by decide +kernel)⟩

/-- A percentage with a separator in front. -/
theorem separator_passes_reader : ¬∀ name lore entry, RustBot.tooltip name lore = some entry →
    Client.SellMultiplier.valid entry = true := by
  intro h
  have hvalid := h "Landwirtschaft" ["Aktueller Multiplikator: 1.6x", "Fortschritt: $600K / $800K",
    "[███...] ,5%"] ⟨"Landwirtschaft", "1.6x", "600K$/800K$ - ,5%"⟩ (by decide +kernel)
  exact absurd hvalid (by decide +kernel)

end AfkClient.Multipliers

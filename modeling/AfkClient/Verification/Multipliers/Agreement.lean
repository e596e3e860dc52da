import AfkClient.Library.RegexSearch
import AfkClient.Verification.Multipliers.Readers
import Mathlib.Data.List.DropRight

/-! The two readers of a progress, side by side on plain lines of a tooltip. -/

namespace AfkClient.Multipliers

open Re

/-! ### White space -/

/-- White space, as either language knows it, is the plain space. -/
def Spaced (text : List Char) : Prop :=
  ∀ c ∈ text, Text.isSpace c = true ∨ RustBot.isWhitespace c = true → c = ' '

theorem Spaced.subset {text text' : List Char} (h : Spaced text) (hsub : text' ⊆ text) :
    Spaced text' := fun c hc => h c (hsub hc)

theorem Spaced.isWhitespace_eq {text : List Char} (h : Spaced text) {c : Char} (hc : c ∈ text) :
    RustBot.isWhitespace c = Text.isSpace c := by
  rw [Bool.eq_iff_iff]
  constructor
  · intro hspace
    rw [h c hc (.inr hspace)]
    rfl
  · intro hspace
    rw [h c hc (.inl hspace)]
    rfl

theorem dropWhile_congr {p q : Char → Bool} {text : List Char} (h : ∀ c ∈ text, p c = q c) :
    text.dropWhile p = text.dropWhile q := by
  induction text with
  | nil => rfl
  | cons c text ih =>
      rw [List.dropWhile_cons, List.dropWhile_cons, h c (by simp)]
      rw [ih fun d hd => h d (by simp [hd])]

theorem Spaced.trimStart_eq {text : List Char} (h : Spaced text) :
    RustBot.trimStart text = Text.trimStart text :=
  dropWhile_congr fun _ hc => h.isWhitespace_eq hc

theorem trimStart_subset (text : List Char) : Text.trimStart text ⊆ text :=
  (List.dropWhile_sublist _).subset

theorem Spaced.trim_eq {text : List Char} (h : Spaced text) :
    RustBot.trim text = Text.trim text := by
  have hstart : Spaced (Text.trimStart text).reverse :=
    h.subset fun c hc => trimStart_subset text (List.mem_reverse.mp hc)
  rw [RustBot.trim, RustBot.trimEnd, h.trimStart_eq, hstart.trimStart_eq]
  rfl

/-! ### The number before a percent sign -/

def isNumeral (c : Char) : Bool := c.isDigit || RustBot.isSeparator c

/-- The digits and separators at the end of a text, white space behind them aside. -/
def numberBefore (text : List Char) : List Char :=
  ((RustBot.trimEnd text).reverse.takeWhile isNumeral).reverse

theorem shownPercent_eq (line : List Char) :
    RustBot.shownPercent line = numberBefore (line.takeWhile (· ≠ '%')) := rfl

theorem not_space_of_isNumeral {c : Char} (h : isNumeral c = true) :
    RustBot.isWhitespace c = false := by
  rcases Bool.or_eq_true_iff.mp h with h | h
  · by_contra hspace
    rw [Bool.not_eq_false, RustBot.isWhitespace, Bool.or_eq_true, decide_eq_true_eq] at hspace
    have hrange : 48 ≤ c.toNat ∧ c.toNat ≤ 57 := by
      rw [Char.isDigit, Bool.and_eq_true, decide_eq_true_eq, decide_eq_true_eq] at h
      exact h
    rcases hspace with hspace | hspace
    · have hlist : ['\t', '\n', '\x0b', '\x0c', '\r', ' ', '\u0085', '\u00a0', '\u1680', '\u2028',
          '\u2029', '\u202f', '\u205f', '\u3000'].all
            (fun d => decide (d.toNat < 48 ∨ 57 < d.toNat)) = true := rfl
      have hval := of_decide_eq_true (List.all_eq_true.mp hlist c hspace)
      omega
    · rw [Bool.and_eq_true, decide_eq_true_eq] at hspace
      have hlow : '\u2000'.toNat ≤ c.toNat := hspace.1
      have heq : '\u2000'.toNat = 8192 := rfl
      omega
  · rw [RustBot.isSeparator, Bool.or_eq_true, beq_iff_eq, beq_iff_eq] at h
    rcases h with rfl | rfl <;> rfl

/-- The number ends where neither a digit nor a separator stands in front of it. -/
theorem numberBefore_of_split {front word gap : List Char} (hne : word ≠ [])
    (hword : ∀ c ∈ word, isNumeral c = true) (hgap : ∀ c ∈ gap, RustBot.isWhitespace c = true)
    (hfront : ∀ c ∈ front.getLast?, isNumeral c = false) :
    numberBefore (front ++ (word ++ gap)) = word := by
  have hspaces : ∀ c ∈ gap.reverse, RustBot.isWhitespace c = true :=
    fun c hc => hgap c (List.mem_reverse.mp hc)
  have htrim : RustBot.trimStart (front ++ (word ++ gap)).reverse = word.reverse ++ front.reverse := by
    rw [List.reverse_append, List.reverse_append, List.append_assoc, RustBot.trimStart,
      List.dropWhile_append_of_pos hspaces]
    cases hrev : word.reverse with
    | nil => exact absurd (List.reverse_eq_nil_iff.mp hrev) hne
    | cons c rest =>
        have hc : isNumeral c = true := hword c (List.mem_reverse.mp (hrev ▸ List.mem_cons_self))
        rw [List.cons_append, List.dropWhile_cons_of_neg]
        rw [not_space_of_isNumeral hc]
        exact Bool.false_ne_true
  have htake : (word.reverse ++ front.reverse).takeWhile isNumeral = word.reverse := by
    rw [List.takeWhile_append_of_pos fun c hc => hword c (List.mem_reverse.mp hc)]
    cases hrev : front.reverse with
    | nil => rw [List.takeWhile_nil, List.append_nil]
    | cons c rest =>
        have hlast : front.getLast? = some c := by
          rw [List.getLast?_eq_head?_reverse, hrev]
          rfl
        have hc := hfront c hlast
        rw [List.takeWhile_cons_of_neg (by simp [hc]), List.append_nil]
  rw [numberBefore, RustBot.trimEnd, htrim, List.reverse_reverse, htake, List.reverse_reverse]

/-- What stands around the number at the end of a text. -/
theorem exists_front (text : List Char) : ∃ front gap,
    text = front ++ (numberBefore text ++ gap) ∧ (∀ c ∈ gap, RustBot.isWhitespace c = true) ∧
      ∀ c ∈ front.getLast?, isNumeral c = false := by
  have hspaces := List.takeWhile_append_dropWhile (p := RustBot.isWhitespace) (l := text.reverse)
  have hnumber := List.takeWhile_append_dropWhile (p := isNumeral)
    (l := text.reverse.dropWhile RustBot.isWhitespace)
  have hbefore : numberBefore text =
      ((text.reverse.dropWhile RustBot.isWhitespace).takeWhile isNumeral).reverse := by
    rw [numberBefore, RustBot.trimEnd, List.reverse_reverse, RustBot.trimStart]
  refine ⟨((text.reverse.dropWhile RustBot.isWhitespace).dropWhile isNumeral).reverse,
    (text.reverse.takeWhile RustBot.isWhitespace).reverse, ?_, ?_, ?_⟩
  · rw [hbefore, ← List.append_assoc, ← List.reverse_append, hnumber, ← List.reverse_append,
      hspaces, List.reverse_reverse]
  · intro c hc
    exact List.mem_takeWhile_imp (List.mem_reverse.mp hc)
  · intro c hc
    rw [List.getLast?_reverse] at hc
    have hnot := List.head?_dropWhile_not isNumeral (text.reverse.dropWhile RustBot.isWhitespace)
    rw [Option.mem_def.mp hc] at hnot
    simpa using hnot

/-! ### The percentage that the expression finds -/

/-- What follows the mark in front of the number. -/
def signRe : Re := seqs [group 1 numberRe, many Text.space, lit "%"]

def frontRe : Re := set fun c => !c.isDigit && c ≠ '.' && c ≠ ','

theorem front_iff {c : Char} :
    (!c.isDigit && c ≠ '.' && c ≠ ',') = true ↔ isNumeral c = false := by
  simp [isNumeral, RustBot.isSeparator, and_assoc]

/-- The text begins with a number and a percent sign. -/
def Begins (text number : List Char) : Prop :=
  ∃ gap rest, text = number ++ (gap ++ '%' :: rest) ∧ number ∈ numberRe.language ∧
    ∀ c ∈ gap, Text.isSpace c = true

/-- So it does behind its first character, which belongs to no number. -/
def Behind (text number : List Char) : Prop :=
  ∃ c rest, text = c :: rest ∧ isNumeral c = false ∧ Begins rest number

theorem separatorRe_none {rest : List Char} (h : ∀ x ∈ rest.head?, isNumeral x = false) (c : Cursor)
    (hc : c.after = rest) : (seq separator (some1 digit)).matchesAt c = [] := by
  cases rest with
  | nil => simp [separator, matchesAt, hc]
  | cons x rest =>
      have hx := (Bool.or_eq_false_iff.mp (h x rfl)).2
      rw [RustBot.isSeparator] at hx
      simp [separator, matchesAt, hc, hx]

theorem passes_number {word rest : List Char} (hword : word ∈ numberRe.language)
    (hrest : ∀ x ∈ rest.head?, isNumeral x = false) : Passes numberRe word rest := by
  have hdigit : ∀ x ∈ rest.head?, x.isDigit = false :=
    fun x hx => (Bool.or_eq_false_iff.mp (hrest x hx)).1
  rcases mem_number.mp hword with ⟨hne, hdigits⟩ | ⟨whole, c, decimals, rfl, hc, ⟨hwhole, hw⟩,
    hdecimals, hd⟩
  · have hfirst : Passes (some1 digit) word ([] ++ rest) := passes_some1_set hne hdigits hdigit
    have hnone := passes_opt_nil (separatorRe_none hrest)
    rw [← List.append_nil word]
    exact hfirst.seq hnone
  · have hmark : ∀ x ∈ ((c :: decimals) ++ rest).head?, x.isDigit = false := by
      intro x hx
      obtain rfl := Option.some.inj hx
      exact not_digit_of_isSeparator hc
    have hlast : Passes (some1 digit) decimals rest := passes_some1_set hdecimals hd hdigit
    have hsecond : Passes (seq separator (some1 digit)) ([c] ++ decimals) rest :=
      (passes_set hc _).seq hlast
    exact (passes_some1_set hwhole hw hmark).seq (passes_opt hsecond)

theorem head_gap {gap : List Char} (hgap : ∀ c ∈ gap, Text.isSpace c = true) (rest : List Char) :
    ∀ x ∈ (gap ++ '%' :: rest).head?, isNumeral x = false := by
  intro x hx
  cases gap with
  | nil =>
      obtain rfl := Option.some.inj hx
      rfl
  | cons c gap =>
      obtain rfl := Option.some.inj hx
      have hspace := hgap c List.mem_cons_self
      rw [isNumeral, Bool.or_eq_false_iff]
      constructor
      · by_contra hdigit
        rw [Bool.not_eq_false] at hdigit
        rw [Text.not_space_of_digit hdigit] at hspace
        cases hspace
      · rw [RustBot.isSeparator, Bool.or_eq_false_iff, beq_eq_false_iff_ne, beq_eq_false_iff_ne]
        constructor
        · rintro rfl
          exact absurd hspace (by decide)
        · rintro rfl
          exact absurd hspace (by decide)

theorem Begins.prefers {text number : List Char} (h : Begins text number) (before : List Char) :
    ∃ d, Prefers signRe ⟨before, text, []⟩ d ∧ d.group? 1 = some number := by
  obtain ⟨gap, rest, rfl, hnumber, hgap⟩ := h
  have hback : Passes (seqs [many Text.space, lit "%"]) (gap ++ ("%".toList ++ [])) rest :=
    (passes_many_set hgap (by simp [Text.isSpace])).seq ((passes_lit "%" _).seq (passes_eps rest))
  have hsplit : gap ++ '%' :: rest = (gap ++ ("%".toList ++ [])) ++ rest := by simp
  refine @Passes.capture _ numberRe [] [many Text.space, lit "%"] 1 [] number _ rest ?_ ?_ hback ?_
  · exact passes_eps _
  · rw [← hsplit]
    exact passes_number hnumber (head_gap hgap rest)
  · simp

theorem begins_of_matches {before text : List Char} (h : signRe.matchesAt ⟨before, text, []⟩ ≠ []) :
    ∃ number, Begins text number := by
  have hanchorless : signRe.anchorless = true := rfl
  obtain ⟨word, rest, htext, hword⟩ := (matchesAt_ne_nil hanchorless).mp h
  obtain ⟨number, hnumber, _, htail, rfl⟩ := mem_language_seq.mp hword
  obtain ⟨gap, hgap, _, hlast, rfl⟩ := mem_language_seq.mp htail
  obtain ⟨sign, hsign, _, rfl, rfl⟩ := mem_language_seq.mp hlast
  obtain rfl : sign = ['%'] := (mem_language_lit ['%'] sign).mp hsign
  refine ⟨number, gap, rest, ?_, hnumber, mem_language_many_set.mp hgap⟩
  change text = _ at htext
  rw [htext]
  simp

theorem Behind.prefers {text number : List Char} (h : Behind text number) (before : List Char) :
    ∃ d, Prefers (seq frontRe signRe) ⟨before, text, []⟩ d ∧ d.group? 1 = some number := by
  obtain ⟨c, rest, rfl, hc, hrest⟩ := h
  obtain ⟨d, hd, hgroup⟩ := hrest.prefers (c :: before)
  have hfront : Prefers frontRe ⟨before, c :: rest, []⟩ ⟨c :: before, rest, []⟩ :=
    prefers_set rfl (front_iff.mpr hc)
  exact ⟨d, hfront.seq hd, hgroup⟩

theorem behind_of_matches {before text : List Char}
    (h : (seq frontRe signRe).matchesAt ⟨before, text, []⟩ ≠ []) :
    ∃ number, Behind text number := by
  obtain ⟨d, hd⟩ := List.exists_mem_of_ne_nil _ h
  obtain ⟨e, he, hd⟩ := mem_seq.mp hd
  obtain ⟨c, rest, htext, hc, rfl⟩ := mem_set.mp he
  obtain ⟨number, hnumber⟩ := begins_of_matches (List.ne_nil_of_mem hd)
  exact ⟨number, c, rest, htext, front_iff.mp hc, hnumber⟩

/-- The expression finds a number at the begin, or the first one behind a character that belongs to
no number. -/
theorem percentRe_capture (line number : List Char) : percentRe.capture 1 line = some number ↔
    Begins line number ∨ (∀ n, ¬Begins line n) ∧ First Behind line number := by
  have hfirst := capture_first (fun before _ _ h => Behind.prefers h before)
    (fun _ _ => behind_of_matches) line number
  have hexec : percentRe.exec line = (signRe.matchesAt ⟨[], line, []⟩).head?.or
      ((seq frontRe signRe).exec line) := exec_alt_bos line
  rw [capture, hexec, ← hfirst]
  by_cases hbegin : ∃ n, Begins line n
  · obtain ⟨n, hn⟩ := hbegin
    obtain ⟨d, hd, hgroup⟩ := hn.prefers []
    rw [show _ = some d from hd, Option.some_or, Option.bind_some, hgroup]
    constructor
    · intro h
      exact .inl (Option.some.inj h ▸ hn)
    · rintro (h | ⟨hnone, -⟩)
      · obtain ⟨d', hd', hgroup'⟩ := h.prefers []
        rw [Prefers, show _ = some d from hd, Option.some.injEq] at hd'
        rw [← hgroup', ← hd', hgroup]
      · exact absurd hn (hnone n)
  · have hnone : signRe.matchesAt ⟨[], line, []⟩ = [] := by
      by_contra hne
      exact hbegin (begins_of_matches hne)
    rw [hnone, List.head?_nil, Option.none_or]
    constructor
    · exact fun h => .inr ⟨fun n hn => hbegin ⟨n, hn⟩, h⟩
    · rintro (h | ⟨-, h⟩)
      · exact absurd ⟨number, h⟩ hbegin
      · exact h

/-! ### Percent signs with a number -/

/-- A percent sign behind `front`, with a number in front of it. -/
def Signed (line front : List Char) : Prop :=
  (∃ rest, line = front ++ '%' :: rest) ∧ numberBefore front ∈ numberRe.language

/-- The first such sign. -/
def Marked (line front : List Char) : Prop :=
  Signed line front ∧ ∀ front', Signed line front' → front.length ≤ front'.length

theorem number_ne_nil {text : List Char} (h : text ∈ numberRe.language) : text ≠ [] := by
  rintro rfl
  exact absurd (number_clean h).1 (by simp)

theorem sign_not_mem {word gap : List Char} (hword : ∀ c ∈ word, isNumeral c = true)
    (hgap : ∀ c ∈ gap, Text.isSpace c = true) : '%' ∉ word ++ gap := by
  intro h
  rcases List.mem_append.mp h with h | h
  · exact absurd (hword _ h) (by decide)
  · exact absurd (hgap _ h) (by decide)

/-- An earlier sign stands in what precedes a later one. -/
theorem sign_mem {front front' rest rest' : List Char} (h : front ++ '%' :: rest = front' ++ '%' :: rest')
    (hlt : front'.length < front.length) : ∃ more, front = front' ++ '%' :: more := by
  rcases List.append_eq_append_iff.mp h with ⟨more, rfl, -⟩ | ⟨more, rfl, hmore⟩
  · rw [List.length_append] at hlt
    omega
  · cases more with
    | nil =>
        rw [List.append_nil] at hlt
        omega
    | cons c more =>
        obtain ⟨rfl, -⟩ := List.cons.inj hmore
        exact ⟨more, rfl⟩

theorem Signed.found {line front : List Char} (hline : Spaced line) (h : Signed line front) :
    Begins line (numberBefore front) ∨ ∃ before after, line = before ++ after ∧
      Behind after (numberBefore front) ∧ before.length < front.length := by
  obtain ⟨⟨rest, rfl⟩, hnumber⟩ := h
  obtain ⟨start, gap, hfront, hgap, hstart⟩ := exists_front front
  have hspace : ∀ c ∈ gap, Text.isSpace c = true := by
    intro c hc
    have hmem : c ∈ front ++ '%' :: rest := by
      rw [hfront]
      simp [hc]
    rw [← hline.isWhitespace_eq hmem]
    exact hgap c hc
  have hbegins : Begins (numberBefore front ++ (gap ++ '%' :: rest)) (numberBefore front) :=
    ⟨gap, rest, rfl, hnumber, hspace⟩
  rcases List.eq_nil_or_concat start with rfl | ⟨before, c, rfl⟩
  · left
    have hwhole : front ++ '%' :: rest = numberBefore front ++ (gap ++ '%' :: rest) := by
      rw [List.nil_append] at hfront
      conv_lhs => rw [hfront, List.append_assoc]
    rwa [hwhole]
  · right
    rw [List.concat_eq_append] at hfront hstart
    refine ⟨before, c :: (numberBefore front ++ (gap ++ '%' :: rest)), ?_,
      ⟨c, _, rfl, hstart c (by simp), hbegins⟩, ?_⟩
    · conv_lhs => rw [hfront]
      simp
    · rw [hfront]
      simp

theorem Begins.marked {line number : List Char} (h : Begins line number) (hline : Spaced line) :
    ∃ front, Marked line front ∧ numberBefore front = number := by
  obtain ⟨gap, rest, rfl, hnumber, hgap⟩ := h
  have hspace : ∀ c ∈ gap, RustBot.isWhitespace c = true := fun c hc =>
    (hline.isWhitespace_eq (by simp [hc])).trans (hgap c hc)
  have hbefore : numberBefore (number ++ gap) = number :=
    @numberBefore_of_split [] _ _ (number_ne_nil hnumber) (number_chars hnumber) hspace (by simp)
  refine ⟨number ++ gap, ⟨⟨⟨rest, by simp⟩, by rwa [hbefore]⟩, ?_⟩, hbefore⟩
  rintro front' ⟨⟨rest', hfront'⟩, -⟩
  by_contra hlt
  rw [← List.append_assoc] at hfront'
  obtain ⟨more, hmore⟩ := sign_mem hfront' (by omega)
  exact sign_not_mem (number_chars hnumber) hgap (by simp [hmore])

theorem Behind.marked {line number : List Char} (hnone : ∀ n, ¬Begins line n)
    (h : First Behind line number) (hline : Spaced line) :
    ∃ front, Marked line front ∧ numberBefore front = number := by
  obtain ⟨before, _, rfl, ⟨c, _, rfl, hc, gap, rest, rfl, hnumber, hgap⟩, hleft⟩ :=
    h.exists_leftmost
  have hspace : ∀ c ∈ gap, RustBot.isWhitespace c = true := fun c hc =>
    (hline.isWhitespace_eq (by simp [hc])).trans (hgap c hc)
  have hbefore : numberBefore ((before ++ [c]) ++ (number ++ gap)) = number :=
    numberBefore_of_split (number_ne_nil hnumber) (number_chars hnumber) hspace (by simpa using hc)
  refine ⟨(before ++ [c]) ++ (number ++ gap), ⟨⟨⟨rest, by simp⟩, by rwa [hbefore]⟩, ?_⟩, hbefore⟩
  intro front' hsigned
  by_contra hlt
  rcases hsigned.found hline with hbegins | ⟨before', after', hsplit, hbehind, hlt'⟩
  · exact hnone _ hbegins
  · -- the earlier sign would stand in the number or in the white space behind it
    have hle : before.length ≤ before'.length := by
      by_contra hshort
      exact hleft before' after' hsplit (by omega) _ hbehind
    obtain ⟨⟨rest', hfront'⟩, -⟩ := hsigned
    have hwhole : (before ++ [c]) ++ (number ++ gap) ++ '%' :: rest = front' ++ '%' :: rest' := by
      rw [← hfront']
      simp
    obtain ⟨more, hmore⟩ := sign_mem hwhole (by omega)
    refine sign_not_mem (number_chars hnumber) hgap ?_
    have hdrop := congrArg (List.drop (before ++ [c]).length) hmore
    rw [List.drop_left, List.drop_append_of_le_length (by simp; omega)] at hdrop
    rw [hdrop]
    simp

/-- The expression finds the number at the first sign that has one. -/
theorem capture_marked {line number : List Char} (hline : Spaced line)
    (h : percentRe.capture 1 line = some number) :
    ∃ front, Marked line front ∧ numberBefore front = number := by
  rcases (percentRe_capture line number).mp h with h | ⟨hnone, h⟩
  · exact h.marked hline
  · exact Behind.marked hnone h hline

theorem capture_none {line : List Char} (hline : Spaced line)
    (h : percentRe.capture 1 line = none) (front : List Char) : ¬Signed line front := by
  intro hsigned
  have hnever : ∀ n, percentRe.capture 1 line ≠ some n := by simp [h]
  by_cases hbegin : ∃ n, Begins line n
  · obtain ⟨n, hn⟩ := hbegin
    exact hnever n ((percentRe_capture line n).mpr (.inl hn))
  · rcases hsigned.found hline with hfound | ⟨before, after, rfl, hbehind, -⟩
    · exact hbegin ⟨_, hfound⟩
    · obtain ⟨n, hn⟩ := First.exists_of_split hbehind before
      exact hnever n ((percentRe_capture _ n).mpr (.inr ⟨fun m hm => hbegin ⟨m, hm⟩, hn⟩))

/-! ### Values -/

theorem splitSeparators_eq (text : List Char) :
    splitSeparators text = text.splitOnP RustBot.isSeparator := by
  induction text with
  | nil => rfl
  | cons c text ih =>
      rw [List.splitOnP_cons_eq_if_modifyHead, splitSeparators, ih]
      by_cases hc : c = '.' ∨ c = ','
      · have hsep : RustBot.isSeparator c = true := by simpa [RustBot.isSeparator] using hc
        rw [if_pos hc, if_pos hsep]
      · have hsep : ¬RustBot.isSeparator c = true := by simpa [RustBot.isSeparator] using hc
        rw [if_neg hc, if_neg hsep]
        cases hsplit : text.splitOnP RustBot.isSeparator with
        | nil => exact absurd hsplit (List.splitOnP_ne_nil _ text)
        | cons piece pieces => rfl

/-- The value of a percentage with at most one separator. -/
def percentValue (text : List Char) : ℚ :=
  decimalValue ((splitSeparators text).head?.getD []) (((splitSeparators text).drop 1).flatten)

theorem parseFloat_number {text : List Char} (h : text ∈ numberRe.language) :
    RustBot.parseFloat (text.map fun c => if c = ',' then '.' else c) = some (percentValue text) := by
  have hpieces := splitOn_point (number_chars h)
  rw [RustBot.parseFloat, hpieces, percentValue, splitSeparators_eq]
  have hdigit : ∀ part : List Char, (∀ c ∈ part, c.isDigit = true) →
      ∀ c ∈ part, RustBot.isSeparator c = false := by
    intro part hpart c hc
    by_contra hsep
    rw [Bool.not_eq_false] at hsep
    have hnot := not_digit_of_isSeparator hsep
    rw [hpart c hc] at hnot
    cases hnot
  rcases mem_number.mp h with ⟨hne, hdigits⟩ | ⟨whole, c, decimals, rfl, hc, ⟨hwhole, hw⟩, -, hd⟩
  · have hsplit : text.splitOnP RustBot.isSeparator = [text] :=
      List.splitOnP_eq_singleton (hdigit text hdigits)
    rw [hsplit]
    simp [hne]
  · have hsplit : (whole ++ c :: decimals).splitOnP RustBot.isSeparator = [whole, decimals] := by
      rw [List.splitOnP_append_cons _ _ hc, List.splitOnP_eq_singleton (hdigit whole hw),
        List.splitOnP_eq_singleton (hdigit decimals hd)]
      rfl
    rw [hsplit]
    simp [hwhole]

theorem percentValue_nonneg (text : List Char) : 0 ≤ percentValue text := decimalValue_nonneg _ _

theorem percentage_of_capture {line number : List Char}
    (h : percentRe.capture 1 line = some number) : percentage line =
      if number.length ≤ 10 ∧ percentValue number ≤ 100 then some number else none := by
  unfold percentage
  simp only [h, Option.bind_eq_bind, Option.bind_some]
  change (if 10 < number.length then none else
    if percentValue number ≤ 100 then some number else none) = _
  by_cases hlength : 10 < number.length
  · rw [if_pos hlength, if_neg fun h => absurd h.1 (by omega)]
  · rw [if_neg hlength]
    simp only [Nat.not_lt.mp hlength, true_and]

/-! ### Where the percentages agree -/

/-- The first percent sign has no number, but a later one has one in range. -/
def Stray (line : List Char) : Prop :=
  ∃ front, Marked line front ∧ '%' ∈ front ∧ (numberBefore front).length ≤ 10 ∧
    percentValue (numberBefore front) ≤ 100

theorem takeWhile_sign {front rest : List Char} (h : '%' ∉ front) :
    (front ++ '%' :: rest).takeWhile (· ≠ '%') = front := by
  rw [List.takeWhile_append_of_pos, List.takeWhile_cons_of_neg (by simp), List.append_nil]
  intro c hc
  rw [decide_eq_true_eq]
  rintro rfl
  exact h hc

theorem exists_sign {line : List Char} (h : '%' ∈ line) :
    ∃ rest, line = line.takeWhile (· ≠ '%') ++ '%' :: rest := by
  obtain ⟨front, rest, rfl, hfront⟩ := List.eq_append_cons_of_mem h
  exact ⟨rest, by rw [takeWhile_sign hfront]⟩

theorem rust_percentage_none {line : List Char}
    (hunsigned : ¬Signed line (line.takeWhile (· ≠ '%')))
    (hclean : ∀ text, RustBot.percentage line = some text → Clean text) :
    RustBot.percentage line = none := by
  cases hread : RustBot.percentage line with
  | none => rfl
  | some text =>
      obtain ⟨htext, -, hnumber⟩ := rust_percentage_spec hread
      have hsign : '%' ∈ line := by
        by_contra hsign
        rw [RustBot.percentage, if_pos hsign] at hread
        cases hread
      obtain ⟨rest, hsplit⟩ := exists_sign hsign
      refine absurd ⟨⟨rest, hsplit⟩, ?_⟩ hunsigned
      rw [← shownPercent_eq, ← htext]
      exact hnumber.mpr (hclean text hread)

theorem rust_percentage_number {front rest : List Char} (hfront : '%' ∉ front)
    (hnumber : numberBefore front ∈ numberRe.language) :
    RustBot.percentage (front ++ '%' :: rest) =
      if (numberBefore front).length ≤ 10 ∧ percentValue (numberBefore front) ≤ 100 then
        some (numberBefore front) else none := by
  have hshown : RustBot.shownPercent (front ++ '%' :: rest) = numberBefore front := by
    rw [shownPercent_eq, takeWhile_sign hfront]
  have hsign : ¬('%' ∉ front ++ '%' :: rest) := by simp
  unfold RustBot.percentage
  simp only [hshown, if_neg hsign, parseFloat_number hnumber, Option.bind_eq_bind, Option.bind_some,
    number_ne_nil hnumber, false_or, percentValue_nonneg, true_and]
  by_cases hlength : 10 < (numberBefore front).length
  · simp only [if_pos hlength, Nat.not_le.mpr hlength, false_and, if_false]
    rfl
  · simp only [if_neg hlength, Nat.not_lt.mp hlength, true_and]

/-- The two readers agree on a percentage, unless the number is broken or stands too late. -/
theorem percentage_eq {line : List Char} (hline : Spaced line) (hstray : ¬Stray line)
    (hclean : ∀ text, RustBot.percentage line = some text → Clean text) :
    percentage line = RustBot.percentage line := by
  cases hcapture : percentRe.capture 1 line with
  | none =>
      rw [rust_percentage_none (capture_none hline hcapture _) hclean, percentage, hcapture]
      rfl
  | some number =>
      obtain ⟨front, hmarked, rfl⟩ := capture_marked hline hcapture
      obtain ⟨⟨rest, hsplit⟩, hnumber⟩ := hmarked.1
      rw [percentage_of_capture hcapture]
      by_cases hfront : '%' ∈ front
      · have hunsigned : ¬Signed line (line.takeWhile (· ≠ '%')) := by
          intro hsigned
          have hle := hmarked.2 _ hsigned
          obtain ⟨first, more, rfl, hfirst⟩ := List.eq_append_cons_of_mem hfront
          rw [hsplit, List.append_assoc, List.cons_append, takeWhile_sign hfirst,
            List.length_append, List.length_cons] at hle
          omega
        rw [rust_percentage_none hunsigned hclean, if_neg]
        exact fun h => hstray ⟨front, hmarked, hfront, h⟩
      · conv_rhs => rw [hsplit]
        rw [rust_percentage_number hfront hnumber]

/-! ### Amounts -/

/-- `b` is `a` with spaces behind it, and has no other white space. -/
structure Pads (a b : List Char) : Prop where
  spaced : Spaced b
  split : ∃ gap, b = a ++ gap ∧ ∀ c ∈ gap, c = ' '

theorem Pads.refl {text : List Char} (h : Spaced text) : Pads text text :=
  ⟨h, [], (List.append_nil text).symm, by simp⟩

theorem Pads.trimStart {a b : List Char} (h : Pads a b) :
    Pads (Text.trimStart a) (RustBot.trimStart b) := by
  obtain ⟨hspaced, gap, rfl, hgap⟩ := h
  rw [hspaced.trimStart_eq]
  refine ⟨hspaced.subset (trimStart_subset _), ?_⟩
  have hspace : ∀ c ∈ gap, Text.isSpace c = true := by
    intro c hc
    rw [hgap c hc]
    rfl
  rw [Text.trimStart, Text.trimStart, List.dropWhile_append]
  split
  · rename_i hempty
    rw [List.isEmpty_iff.mp hempty]
    exact ⟨[], List.dropWhile_eq_nil_iff.mpr hspace, by simp⟩
  · exact ⟨gap, rfl, hgap⟩

theorem Pads.drop {a b : List Char} (h : Pads a b) (n : ℕ) : Pads (a.drop n) (b.drop n) := by
  obtain ⟨hspaced, gap, rfl, hgap⟩ := h
  refine ⟨hspaced.subset (List.drop_subset n _), gap.drop (n - a.length), List.drop_append, ?_⟩
  exact fun c hc => hgap c (List.mem_of_mem_drop hc)

theorem stripPrefix_subset (c : Char) (text : List Char) : RustBot.stripPrefix c text ⊆ text := by
  cases text with
  | nil => exact fun _ h => h
  | cons d text =>
      rw [RustBot.stripPrefix]
      split
      · exact List.subset_cons_self d text
      · exact fun _ h => h

theorem Pads.stripPrefix {a b : List Char} (h : Pads a b) :
    Pads (RustBot.stripPrefix '$' a) (RustBot.stripPrefix '$' b) := by
  obtain ⟨hspaced, gap, rfl, hgap⟩ := h
  refine ⟨hspaced.subset (stripPrefix_subset '$' _), gap, ?_, hgap⟩
  cases a with
  | nil =>
      cases gap with
      | nil => rfl
      | cons c gap =>
          obtain rfl := hgap c (by simp)
          rfl
  | cons c a =>
      rw [List.cons_append, RustBot.stripPrefix, RustBot.stripPrefix]
      split <;> rfl

theorem Pads.takeWhile {a b : List Char} (h : Pads a b) {p : Char → Bool} (hp : p ' ' = false) :
    b.takeWhile p = a.takeWhile p := by
  obtain ⟨-, gap, rfl, hgap⟩ := h
  have hnone : gap.takeWhile p = [] := by
    cases gap with
    | nil => rfl
    | cons c gap =>
        obtain rfl := hgap c (by simp)
        exact List.takeWhile_cons_of_neg (by simp [hp])
  rw [List.takeWhile_append, hnone, List.append_nil]
  split
  · rename_i hlength
    exact ((List.takeWhile_sublist p).eq_of_length hlength).symm
  · rfl

theorem trim_eq (text : List Char) : Text.trim text =
    ((text.dropWhile Text.isSpace).reverse.dropWhile Text.isSpace).reverse := rfl

theorem trim_append_spaces {text gap : List Char} (h : ∀ c ∈ gap, c = ' ') :
    Text.trim (text ++ gap) = Text.trim text := by
  have hspace : ∀ c ∈ gap, Text.isSpace c = true := by
    intro c hc
    rw [h c hc]
    rfl
  have hreverse : ∀ c ∈ gap.reverse, Text.isSpace c = true :=
    fun c hc => hspace c (List.mem_reverse.mp hc)
  rw [trim_eq, trim_eq, List.dropWhile_append]
  split
  · rename_i hempty
    rw [List.dropWhile_eq_nil_iff.mpr hspace, List.isEmpty_iff.mp hempty]
  · rw [List.reverse_append, List.dropWhile_append_of_pos hreverse]

theorem Pads.trim {a b : List Char} (h : Pads a b) : RustBot.trim b = Text.trim a := by
  rw [h.spaced.trim_eq]
  obtain ⟨-, gap, rfl, hgap⟩ := h
  exact trim_append_spaces hgap

theorem Pads.head {a b : List Char} (h : Pads a b) {p : Char → Bool} (hp : p ' ' = false) :
    b.head?.any p = a.head?.any p := by
  obtain ⟨-, gap, rfl, hgap⟩ := h
  cases a with
  | nil =>
      cases gap with
      | nil => rfl
      | cons c gap =>
          obtain rfl := hgap c (by simp)
          exact hp
  | cons c a => rfl

theorem dropWhile_eq_drop (p : Char → Bool) (text : List Char) :
    text.dropWhile p = text.drop (text.takeWhile p).length := by
  have hdrop := @List.drop_left _ (text.takeWhile p) (text.dropWhile p)
  rwa [List.takeWhile_append_dropWhile, eq_comm] at hdrop

theorem Pads.dropWhile {a b : List Char} (h : Pads a b) {p : Char → Bool} (hp : p ' ' = false) :
    Pads (a.dropWhile p) (b.dropWhile p) := by
  rw [dropWhile_eq_drop, dropWhile_eq_drop, h.takeWhile hp]
  exact h.drop _

/-- What an amount begins with, its dollar sign aside. -/
theorem pads_trim {text : List Char} (h : Spaced text) :
    Pads (Text.trim text) (RustBot.trimStart text) := by
  rw [h.trimStart_eq]
  refine ⟨h.subset (trimStart_subset text), ?_⟩
  have hsplit := List.takeWhile_append_dropWhile (p := Text.isSpace)
    (l := (Text.trimStart text).reverse)
  refine ⟨((Text.trimStart text).reverse.takeWhile Text.isSpace).reverse, ?_, ?_⟩
  · rw [trim_eq, ← List.reverse_append]
    exact (List.reverse_reverse _).symm.trans (congrArg List.reverse hsplit.symm)
  · intro c hc
    have hmem := List.mem_reverse.mp hc
    have hspace := List.mem_takeWhile_imp hmem
    have hin := trimStart_subset text (List.mem_reverse.mp ((List.takeWhile_sublist _).subset hmem))
    exact h c hin (.inl hspace)

/-- A letter that only the expression under the flags `iu` takes for one of a unit. -/
def isForeign (c : Char) : Bool := c == 'ſ' || c == '\u212a'

/-- Where the digits of an amount begin. -/
def amountStart (input : List Char) : List Char :=
  RustBot.trimStart (RustBot.stripPrefix '$' (RustBot.trimStart input))

/-- What stands behind the digits of an amount. -/
def amountRest (input : List Char) : List Char :=
  RustBot.trimStart ((amountStart input).drop ((amountStart input).takeWhile isNumeral).length)

/-- Behind the amount, or its unit, stands such a letter. -/
def letterBehind (input : List Char) : Bool :=
  ((amountRest input).dropWhile Char.isAlpha).head?.any isForeign

theorem pads_start {input : List Char} (h : Spaced input) :
    Pads (match Text.trim input with
      | '$' :: rest => Text.trimStart rest
      | text => text) (amountStart input) := by
  have htrim := pads_trim h
  rw [amountStart]
  split
  · rename_i rest heq
    rw [heq] at htrim
    have hstrip := htrim.stripPrefix
    rw [RustBot.stripPrefix, if_pos rfl] at hstrip
    exact hstrip.trimStart
  · rename_i hnone
    cases htext : Text.trim input with
    | nil =>
        rw [htext] at htrim
        exact htrim.stripPrefix.trimStart
    | cons c rest =>
        rw [htext] at htrim
        have hc : c ≠ '$' := by
          rintro rfl
          exact hnone rest htext
        obtain ⟨gap, hgap, -⟩ := htrim.split
        have hstrip : RustBot.stripPrefix '$' (RustBot.trimStart input) = RustBot.trimStart input := by
          rw [hgap, List.cons_append, RustBot.stripPrefix, if_neg hc]
        have hidem : RustBot.trimStart (RustBot.trimStart input) = RustBot.trimStart input :=
          List.dropWhile_idempotent RustBot.isWhitespace input
        rw [hstrip, hidem]
        exact htrim

theorem head_takeWhile_eq (text : List Char) :
    (text.takeWhile isNumeral).head?.any Char.isDigit = text.head?.any Char.isDigit := by
  cases text with
  | nil => rfl
  | cons c text =>
      by_cases hc : c.isDigit = true
      · rw [List.takeWhile_cons_of_pos (by simp [isNumeral, hc])]
        rfl
      · by_cases hnumeral : isNumeral c = true
        · rw [List.takeWhile_cons_of_pos hnumeral]
          rfl
        · rw [List.takeWhile_cons_of_neg hnumeral]
          simp [hc]

theorem isUnitLetter_eq (c : Char) : isUnitLetter c = (c.isAlpha || isForeign c) :=
  Bool.or_assoc _ _ _

theorem takeWhile_foreign {rest : List Char}
    (h : (rest.dropWhile Char.isAlpha).head?.any isForeign = true) :
    ∃ c ∈ rest.takeWhile isUnitLetter, isForeign c = true := by
  induction rest with
  | nil => simp at h
  | cons c rest ih =>
      by_cases hc : c.isAlpha = true
      · rw [List.dropWhile_cons_of_pos hc] at h
        obtain ⟨d, hd, hforeign⟩ := ih h
        refine ⟨d, ?_, hforeign⟩
        rw [List.takeWhile_cons_of_pos (by rw [isUnitLetter_eq, hc, Bool.true_or])]
        exact List.mem_cons_of_mem c hd
      · rw [List.dropWhile_cons_of_neg hc, List.head?_cons, Option.any_some] at h
        refine ⟨c, ?_, h⟩
        rw [List.takeWhile_cons_of_pos (by rw [isUnitLetter_eq, h, Bool.or_true])]
        exact List.mem_cons_self

theorem takeWhile_unit {rest : List Char}
    (h : ¬(rest.dropWhile Char.isAlpha).head?.any isForeign = true) :
    rest.takeWhile isUnitLetter = rest.takeWhile Char.isAlpha := by
  induction rest with
  | nil => rfl
  | cons c rest ih =>
      by_cases hc : c.isAlpha = true
      · rw [List.dropWhile_cons_of_pos hc] at h
        rw [List.takeWhile_cons_of_pos hc, ← ih h]
        exact List.takeWhile_cons_of_pos (by rw [isUnitLetter_eq, hc, Bool.true_or])
      · rw [List.dropWhile_cons_of_neg hc, List.head?_cons, Option.any_some] at h
        rw [List.takeWhile_cons_of_neg hc]
        apply List.takeWhile_cons_of_neg
        rwa [isUnitLetter_eq, Bool.eq_false_of_not_eq_true hc, Bool.false_or]

theorem unit_iff (unit : List Char) :
    (unit ≠ [] ∧ ¬(unit.length = 1 ∧ unit.all fun c => c.toUpper ∈ factorLetters)) ↔
      unit.map Char.toUpper ≠ [] ∧ unit.map Char.toUpper ∉ [['K'], ['M'], ['B'], ['T']] := by
  rcases unit with _ | ⟨c, _ | ⟨d, unit⟩⟩
  · simp
  · simp [factorLetters]
  · simp

theorem foreign_unit {unit : List Char} (h : ∃ c ∈ unit, isForeign c = true) :
    unit ≠ [] ∧ ¬(unit.length = 1 ∧ unit.all fun c => c.toUpper ∈ factorLetters) := by
  obtain ⟨c, hc, hforeign⟩ := h
  refine ⟨List.ne_nil_of_mem hc, ?_⟩
  rintro ⟨-, hall⟩
  have hupper := List.all_eq_true.mp hall c hc
  rw [isForeign, Bool.or_eq_true, beq_iff_eq, beq_iff_eq] at hforeign
  rcases hforeign with rfl | rfl
  · exact absurd hupper (by decide)
  · exact absurd hupper (by decide)

theorem stripPrefix_eq (text : List Char) : (match text with
    | '$' :: rest => rest
    | rest => rest) = RustBot.stripPrefix '$' text := by
  cases text with
  | nil => rfl
  | cons c text =>
      rw [RustBot.stripPrefix]
      split
      · rename_i heq
        rw [if_pos (List.cons.inj heq).1, (List.cons.inj heq).2]
      · rename_i hnone
        rw [if_neg]
        rintro rfl
        exact hnone text rfl

theorem rust_amount_eq (input : List Char) : RustBot.amount input =
    if !(amountStart input).head?.any Char.isDigit then none
    else if 32 < ((amountStart input).takeWhile isNumeral).length then none
    else
      let unit := ((amountRest input).takeWhile Char.isAlpha).map Char.toUpper
      if unit ≠ [] ∧ unit ∉ [['K'], ['M'], ['B'], ['T']] then none
      else some ⟨(amountStart input).takeWhile isNumeral ++ unit, RustBot.trim
        (RustBot.stripPrefix '$' (RustBot.trimStart ((amountRest input).drop unit.length)))⟩ := rfl

theorem ts_amount_eq (input : List Char) : amount input =
    let text := match Text.trim input with
      | '$' :: rest => Text.trimStart rest
      | text => text
    let number := text.takeWhile fun c => c.isDigit || c == '.' || c == ','
    let rest := Text.trimStart (text.drop number.length)
    let unit := rest.takeWhile isUnitLetter
    if !number.head?.any Char.isDigit || 32 < number.length then none
    else if unit ≠ [] ∧ ¬(unit.length = 1 ∧ unit.all fun c => c.toUpper ∈ factorLetters) then none
    else some ⟨number ++ unit.map Char.toUpper, Text.trim
      (match if unit = [] then rest else Text.trimStart (rest.drop unit.length) with
        | '$' :: rest => rest
        | rest => rest)⟩ := rfl

theorem trimStart_drop_unit (text : List Char) (unit : List Char) :
    (if unit = [] then Text.trimStart text else
      Text.trimStart ((Text.trimStart text).drop unit.length)) =
        Text.trimStart ((Text.trimStart text).drop unit.length) := by
  split
  · rename_i hunit
    have hidem : Text.trimStart (Text.trimStart text) = Text.trimStart text :=
      List.dropWhile_idempotent Text.isSpace text
    rw [hunit, List.length_nil, List.drop_zero, hidem]
  · rfl

/-- The two readers agree on an amount, unless such a letter stands behind it. -/
theorem amount_eq {input : List Char} (h : Spaced input) : amount input =
    if letterBehind input then none else (RustBot.amount input).map fun a => ⟨a.text, a.rest⟩ := by
  have hpads := pads_start h
  have hnumeral : (fun c : Char => c.isDigit || c == '.' || c == ',') = isNumeral :=
    funext fun c => Bool.or_assoc _ _ _
  rw [ts_amount_eq, rust_amount_eq]
  simp only [hnumeral, trimStart_drop_unit, stripPrefix_eq]
  generalize (match Text.trim input with
    | '$' :: rest => Text.trimStart rest
    | text => text) = text at hpads ⊢
  have hnumber := hpads.takeWhile (p := isNumeral) rfl
  have hrest := (hpads.drop (text.takeWhile isNumeral).length).trimStart
  have hdigit := hpads.head (p := Char.isDigit) rfl
  have hbehind : letterBehind input = ((Text.trimStart (text.drop
      (text.takeWhile isNumeral).length)).dropWhile Char.isAlpha).head?.any isForeign := by
    rw [letterBehind, amountRest, hnumber]
    exact (hrest.dropWhile rfl).head rfl
  rw [amountRest, hnumber, hdigit, hrest.takeWhile (p := Char.isAlpha) rfl, hbehind]
  generalize Text.trimStart (text.drop (text.takeWhile isNumeral).length) = rest at hrest ⊢
  generalize RustBot.trimStart ((amountStart input).drop (text.takeWhile isNumeral).length) = behind
    at hrest ⊢
  simp only [head_takeWhile_eq, List.length_map]
  by_cases hletter : (rest.dropWhile Char.isAlpha).head?.any isForeign = true
  · rw [if_pos hletter, if_pos (foreign_unit (takeWhile_foreign hletter)), ite_self]
  · rw [if_neg hletter, takeWhile_unit hletter, (hrest.drop _).trimStart.stripPrefix.trim]
    by_cases hhead : text.head?.any Char.isDigit = true
    · by_cases hlength : 32 < (text.takeWhile isNumeral).length
      · simp [hhead, hlength]
      · simp only [hhead, hlength, Bool.not_true, decide_false, Bool.or_false, Bool.false_eq_true,
          if_false, unit_iff]
        split <;> rfl
    · simp [hhead]

/-! ### Money -/

theorem digits_not_point {text : List Char} (h : ∀ c ∈ text, c.isDigit = true) :
    ∀ c ∈ text, (c == '.') = false := by
  intro c hc
  rw [beq_eq_false_iff_ne]
  rintro rfl
  exact absurd (h _ hc) (by decide)

theorem parseFloat_whole {text : List Char} (hne : text ≠ []) (h : ∀ c ∈ text, c.isDigit = true) :
    RustBot.parseFloat text = some (Text.decimal text) := by
  rw [RustBot.parseFloat, List.splitOn_eq_splitOnP, List.splitOnP_eq_singleton (digits_not_point h)]
  simp [hne, decimalValue]

theorem parseFloat_point {whole decimals : List Char} (hne : whole ≠ [])
    (hwhole : ∀ c ∈ whole, c.isDigit = true) (hdecimals : ∀ c ∈ decimals, c.isDigit = true) :
    RustBot.parseFloat (whole ++ '.' :: decimals) = some (decimalValue whole decimals) := by
  have hsplit : (whole ++ '.' :: decimals).splitOn '.' = [whole, decimals] := by
    rw [List.splitOn_eq_splitOnP, List.splitOnP_append_cons _ _ (by rfl),
      List.splitOnP_eq_singleton (digits_not_point hwhole),
      List.splitOnP_eq_singleton (digits_not_point hdecimals)]
    rfl
  rw [RustBot.parseFloat, hsplit]
  simp [hne]

theorem mem_of_pieces {text : List Char}
    (h : ∀ piece ∈ text.splitOnP RustBot.isSeparator, ∀ c ∈ piece, c.isDigit = true) :
    ∀ c ∈ text, (c.isDigit || RustBot.isSeparator c) = true := by
  induction text with
  | nil => simp
  | cons d text ih =>
      rw [List.splitOnP_cons_eq_if_modifyHead] at h
      by_cases hd : RustBot.isSeparator d = true
      · rw [if_pos hd] at h
        have ih := ih fun piece hpiece => h piece (List.mem_cons_of_mem _ hpiece)
        simpa [hd] using ih
      · rw [if_neg hd] at h
        cases hsplit : text.splitOnP RustBot.isSeparator with
        | nil => exact absurd hsplit (List.splitOnP_ne_nil _ text)
        | cons piece pieces =>
            rw [hsplit, List.modifyHead_cons] at h
            have hfirst := h (d :: piece) List.mem_cons_self
            have ih := ih fun other hother c hc => by
              rw [hsplit] at hother
              rcases List.mem_cons.mp hother with rfl | hother
              · exact hfirst c (List.mem_cons_of_mem d hc)
              · exact h other (List.mem_cons_of_mem _ hother) c hc
            intro c hc
            rcases List.mem_cons.mp hc with rfl | hc
            · rw [hfirst c List.mem_cons_self, Bool.true_or]
            · exact ih c hc

theorem map_point {text : List Char} (h : ∀ c ∈ text, c.isDigit = true) :
    (text.map fun c => if c = ',' then '.' else c) = text := by
  conv_rhs => rw [← List.map_id text]
  refine List.map_congr_left fun c hc => if_neg ?_
  rintro rfl
  exact absurd (h _ hc) (by decide)

theorem point_of_isSeparator {c : Char} (h : RustBot.isSeparator c = true) :
    (if c = ',' then '.' else c) = '.' := by
  rw [RustBot.isSeparator, Bool.or_eq_true, beq_iff_eq, beq_iff_eq] at h
  rcases h with rfl | rfl <;> rfl

/-- Text of an amount for `parse`, if it has no two kinds of separators. -/
def plainMoney (compact : Bool) (value : List Char) : List Char :=
  let pieces := value.splitOnP RustBot.isSeparator
  if compact ∧ pieces.length = 2 then ['.'].intercalate pieces
  else if 1 < pieces.length ∧ pieces.tail.all (·.length = 3) then pieces.flatten
  else value.map fun c => if c = ',' then '.' else c

theorem plainMoney_eq {compact : Bool} {factor : ℚ} (hfactor : compact = false → factor = 1)
    {value : List Char} (hpieces : ∀ piece ∈ value.splitOnP RustBot.isSeparator,
      piece ≠ [] ∧ ∀ c ∈ piece, c.isDigit = true) :
    (RustBot.parseFloat (plainMoney compact value)).map (· * factor) =
      match value.splitOnP RustBot.isSeparator with
      | [whole, decimals] =>
          if compact = false ∧ decimals.length = 3 then some (Text.decimal (whole ++ decimals) : ℚ)
          else some (decimalValue whole decimals * factor)
      | [whole] => some (Text.decimal whole * factor)
      | pieces =>
          if pieces.tail.all (·.length = 3) then some (Text.decimal pieces.flatten * factor)
          else none := by
  have hchars := mem_of_pieces fun piece hpiece => (hpieces piece hpiece).2
  have hpoint := splitOn_point hchars
  rcases split_cases (p := RustBot.isSeparator) value with ⟨_, hsplit, rfl, hnone⟩ |
    ⟨whole, c, rest, rfl, hc, hnone, hsplit⟩
  · obtain ⟨hne, hdigits⟩ := hpieces value (by simp [hsplit])
    simp [plainMoney, hsplit, map_point hdigits, parseFloat_whole hne hdigits]
  · obtain ⟨hne, hdigits⟩ := hpieces whole (by simp [hsplit])
    rcases split_cases (p := RustBot.isSeparator) rest with ⟨_, hlast, rfl, hrest⟩ |
      ⟨last, d, more, rfl, -, -, hmore⟩
    · have htwo : (whole ++ c :: rest).splitOnP RustBot.isSeparator = [whole, rest] := by
        rw [hsplit, hlast]
      obtain ⟨-, hrest⟩ := hpieces rest (by simp [htwo])
      have hmap : ((whole ++ c :: rest).map fun c => if c = ',' then '.' else c) =
          whole ++ '.' :: rest := by
        rw [List.map_append, List.map_cons, map_point hdigits, map_point hrest,
          point_of_isSeparator hc]
      have hvalue := parseFloat_point hne hdigits hrest
      have hwhole : RustBot.parseFloat (whole ++ rest) = some (Text.decimal (whole ++ rest) : ℚ) := by
        refine parseFloat_whole (by simp [hne]) fun c hc => ?_
        rcases List.mem_append.mp hc with hc | hc
        · exact hdigits c hc
        · exact hrest c hc
      rw [plainMoney, htwo]
      cases compact with
      | true => simp [hvalue]
      | false =>
          by_cases hthree : rest.length = 3
          · simp [hthree, hwhole, hfactor rfl]
          · simp [hthree, hmap, hvalue]
    · obtain ⟨m, ms, hms⟩ := List.exists_cons_of_ne_nil (List.splitOnP_ne_nil RustBot.isSeparator more)
      have hmany : (whole ++ c :: (last ++ d :: more)).splitOnP RustBot.isSeparator =
          whole :: last :: m :: ms := by rw [hsplit, hmore, hms]
      rw [hmany] at hpieces hpoint
      have hflat : ∀ e ∈ (whole :: last :: m :: ms).flatten, e.isDigit = true := by
        intro e he
        obtain ⟨piece, hpiece, he⟩ := List.mem_flatten.mp he
        exact (hpieces piece hpiece).2 e he
      have hne : (whole :: last :: m :: ms).flatten ≠ [] := by simp [hne]
      have hwhole := parseFloat_whole hne hflat
      have hnone : RustBot.parseFloat ((whole ++ c :: (last ++ d :: more)).map fun c =>
          if c = ',' then '.' else c) = none := by
        rw [RustBot.parseFloat, hpoint]
      rw [plainMoney, hmany]
      by_cases hthree : (last :: m :: ms).all (·.length = 3) = true
      · have hlong : 1 < (whole :: last :: m :: ms).length ∧
            (whole :: last :: m :: ms).tail.all (·.length = 3) = true := ⟨by simp, hthree⟩
        rw [if_neg (by simp), if_pos hlong, hwhole]
        simp [hthree]
      · rw [if_neg (by simp), if_neg fun h => hthree h.2, hnone]
        simp [hthree]

/-- A text with a separator has a piece in front of its last one. -/
theorem dropLast_pieces {value : List Char} {c : Char} (hmem : c ∈ value)
    (hc : RustBot.isSeparator c = true)
    (hpieces : ∀ piece ∈ value.splitOnP RustBot.isSeparator, piece ≠ []) :
    (value.splitOnP RustBot.isSeparator).dropLast.flatten ≠ [] := by
  rcases split_cases (p := RustBot.isSeparator) value with ⟨_, -, rfl, hnone⟩ |
    ⟨whole, d, rest, rfl, -, -, hsplit⟩
  · rw [hnone c hmem] at hc
    cases hc
  · have hne := hpieces whole (by simp [hsplit])
    obtain ⟨m, ms, hms⟩ := List.exists_cons_of_ne_nil (List.splitOnP_ne_nil RustBot.isSeparator rest)
    rw [hsplit, hms, List.dropLast_cons_cons, List.flatten_cons]
    simp [hne]

theorem parseFloat_mixed {value : List Char} {c : Char} (hmem : c ∈ value)
    (hc : RustBot.isSeparator c = true) (hpieces : ∀ piece ∈ value.splitOnP RustBot.isSeparator,
      piece ≠ [] ∧ ∀ c ∈ piece, c.isDigit = true) :
    RustBot.parseFloat ((value.splitOnP RustBot.isSeparator).dropLast.flatten ++
        '.' :: (value.splitOnP RustBot.isSeparator).getLast?.getD []) =
      some (decimalValue (value.splitOnP RustBot.isSeparator).dropLast.flatten
        ((value.splitOnP RustBot.isSeparator).getLast?.getD [])) := by
  apply parseFloat_point (dropLast_pieces hmem hc fun piece hpiece => (hpieces piece hpiece).1)
  · intro d hd
    obtain ⟨piece, hpiece, hd⟩ := List.mem_flatten.mp hd
    exact (hpieces piece (List.mem_of_mem_dropLast hpiece)).2 d hd
  · rw [List.getLast?_eq_some_getLast (List.splitOnP_ne_nil RustBot.isSeparator value)]
    exact (hpieces _ (List.getLast_mem _)).2

theorem money_eq (input : List Char) : RustBot.money input = money input := by
  unfold RustBot.money money
  extract_lets unit value factor pieces normalized pieces' decimals
  have hsplit : pieces' = pieces := splitSeparators_eq value
  have hfactor : unit.isSome = false → factor = 1 := by
    intro hnone
    simp only [factor, Option.isNone_iff_eq_none.mp (Option.isSome_eq_false_iff.mp hnone)]
    rfl
  clear_value factor
  rw [hsplit]
  by_cases hpieces : ∀ piece ∈ pieces, piece ≠ [] ∧ ∀ c ∈ piece, c.isDigit = true
  · have hall : ¬(!pieces.all fun piece => piece ≠ [] && piece.all Char.isDigit) = true := by
      simpa using hpieces
    have hany : ¬(pieces.any fun piece => piece = [] || !piece.all Char.isDigit) = true := by
      intro hany
      obtain ⟨piece, hpiece, hbad⟩ := List.any_eq_true.mp hany
      obtain ⟨hne, hdigits⟩ := hpieces piece hpiece
      simp [hne, List.all_eq_true.mpr hdigits] at hbad
    rw [if_neg hall, if_neg hany]
    by_cases hmixed : '.' ∈ value ∧ ',' ∈ value
    · have hvalue := parseFloat_mixed hmixed.1 rfl hpieces
      simp only [normalized, if_pos hmixed, decimals, hsplit]
      rw [hvalue]
      rfl
    · have hplain := plainMoney_eq hfactor hpieces
      simp only [normalized, if_neg hmixed]
      refine hplain.trans ?_
      change (match pieces with
        | [whole, decimals] => _
        | [whole] => _
        | pieces => _) = _
      rcases pieces with _ | ⟨whole, _ | ⟨decimals, _ | ⟨more, rest⟩⟩⟩
      · rfl
      · rfl
      · simp only [Option.isSome_eq_false_iff]
      · rfl
  · have hall : (!pieces.all fun piece => piece ≠ [] && piece.all Char.isDigit) = true := by
      simpa using hpieces
    have hany : (pieces.any fun piece => piece = [] || !piece.all Char.isDigit) = true := by
      rw [← Bool.not_eq_false, List.any_eq_false]
      intro hnone
      refine hpieces fun piece hpiece => ?_
      have hgood := hnone piece hpiece
      simpa using hgood
    rw [if_pos hall, if_pos hany]

/-! ### Labels -/

def foldChar (c : Char) : Char :=
  if c = 'ſ' then 's' else if c = '\u212a' then 'k' else c.toLower

/-- The label under the flags `iu`. -/
def Folds (label word : List Char) : Prop :=
  List.Forall₂ (fun a x => foldChar x == foldChar a) label word

def labels : List String := ["fortschritt", "progress"]

/-- The line begins with a label that has a long s. -/
def LongLabel (line : List Char) : Prop :=
  ∃ label ∈ labels, Folds label.toList (line.take label.length) ∧ 'ſ' ∈ line.take label.length

/-- What stands behind the label and its colon. -/
def labelValue (rest : List Char) : List Char :=
  Text.trimStart (RustBot.stripPrefix ':' (Text.trimStart rest))

theorem passes_label {label : String} (hlabel : label ∈ labels) {word : List Char}
    (hword : Folds label.toList word) (rest : List Char) :
    Passes (oneOf [foldLit "fortschritt", foldLit "progress"]) word rest := by
  have hpasses : Passes (foldLit label) word rest :=
    @passes_seqs_set _ (fun a x => foldChar x == foldChar a) _ _ hword rest
  simp only [labels, List.mem_cons, List.not_mem_nil, or_false] at hlabel
  rcases hlabel with rfl | rfl
  · exact passes_alt_left hpasses
  · refine passes_alt_right hpasses fun c hc => ?_
    by_contra hne
    obtain ⟨d, hd⟩ := List.exists_mem_of_ne_nil _ hne
    have hmem : d ∈ (seqs ("fortschritt".toList.map fun a =>
        set fun x => foldChar x == foldChar a)).matchesAt c := hd
    obtain ⟨word', rest', hafter, hword', -⟩ :=
      (mem_seqs_set (q := fun a x => foldChar x == foldChar a)).mp hmem
    rw [hc] at hafter
    cases hword with
    | cons hx _ =>
        cases hword' with
        | cons hx' _ =>
            obtain ⟨rfl, -⟩ := List.cons.inj hafter
            rw [eq_of_beq hx] at hx'
            exact absurd hx' (by decide)

/-- The parts of the expression behind the label. -/
def valueRe : List Re :=
  [group 1 (star false Text.dot), lit "/", group 2 (many Text.dot), eos]

theorem prefers_value {left right : List Char} (hleft : '/' ∉ left)
    (hdots : ∀ c ∈ left ++ right, Text.isLineTerminator c = false) {c : Cursor}
    (hc : c.after = left ++ '/' :: right) :
    ∃ d, Prefers (seqs valueRe) c d ∧ d.group? 1 = some left ∧ d.group? 2 = some right := by
  have hdot : ∀ x ∈ left ++ right, (!Text.isLineTerminator x) = true := by simpa using hdots
  have hright : Passes (many Text.dot) right [] :=
    passes_many_set (fun x hx => hdot x (by simp [hx])) (by simp)
  let e : Cursor := ⟨left.reverse ++ c.before, '/' :: right, (1, left) :: c.groups⟩
  have hslash : Prefers (lit "/") e (e.skip ['/'] right) := passes_lit "/" right e rfl
  have hgroup := (hright (e.skip ['/'] right) (List.append_nil right).symm).group (n := 2)
    ⟨(List.append_nil right).symm, rfl⟩
  refine ⟨⟨right.reverse ++ ('/' :: (left.reverse ++ c.before)), [], (2, right) :: (1, left) ::
    c.groups⟩, ?_, rfl, rfl⟩
  refine prefers_lazy hc (fun x hx => hdot x (by simp [hx])) ?_ ?_
  · intro a y b hsplit e' he'
    have hy : y ≠ '/' := by
      rintro rfl
      exact hleft (by simp [hsplit])
    simp [seqs, lit, matchesAt, he', hy]
  · exact hslash.seq (hgroup.seq ((prefers_eos rfl).seq (prefers_eps _)))

theorem exists_run (p : Char → Bool) (text : List Char) : ∃ run, text = run ++ text.dropWhile p ∧
    (∀ c ∈ run, p c = true) ∧ ∀ c ∈ (text.dropWhile p).head?, p c = false := by
  refine ⟨text.takeWhile p, List.takeWhile_append_dropWhile.symm,
    fun c hc => List.mem_takeWhile_imp hc, fun c hc => ?_⟩
  have hnot := List.head?_dropWhile_not p text
  rw [Option.mem_def.mp hc] at hnot
  simpa using hnot

/-- The white space and the colon behind a label. -/
theorem passes_gap {rest : List Char} (hvalue : labelValue rest ≠ []) :
    ∃ gap, rest = gap ++ labelValue rest ∧
      Passes (seqs [many Text.space, opt (lit ":"), many Text.space]) gap (labelValue rest) := by
  obtain ⟨run, hrun, hspaces, hhead⟩ := exists_run Text.isSpace rest
  obtain ⟨run', hrun', hspaces', hhead'⟩ :=
    exists_run Text.isSpace (RustBot.stripPrefix ':' (Text.trimStart rest))
  change RustBot.stripPrefix ':' (Text.trimStart rest) = run' ++ labelValue rest at hrun'
  change ∀ c ∈ (labelValue rest).head?, Text.isSpace c = false at hhead'
  change rest = run ++ Text.trimStart rest at hrun
  change ∀ c ∈ (Text.trimStart rest).head?, Text.isSpace c = false at hhead
  have hlast : Passes (seqs [many Text.space]) (run' ++ []) (labelValue rest) :=
    Passes.seq (passes_many_set hspaces' hhead') (passes_eps _)
  by_cases hcolon : ∃ tail, Text.trimStart rest = ':' :: tail
  · obtain ⟨tail, htail⟩ := hcolon
    rw [htail, RustBot.stripPrefix, if_pos rfl] at hrun'
    refine ⟨run ++ (":".toList ++ (run' ++ [])), ?_, ?_⟩
    · conv_lhs => rw [hrun, htail, hrun']
      simp
    · have hmark : Passes (opt (lit ":")) ":".toList ((run' ++ []) ++ labelValue rest) :=
        passes_opt (passes_lit ":" _)
      refine (passes_many_set hspaces ?_).seq (hmark.seq hlast)
      intro c hc
      obtain rfl := Option.some.inj hc
      rfl
  · have hstrip : RustBot.stripPrefix ':' (Text.trimStart rest) = Text.trimStart rest := by
      cases hstart : Text.trimStart rest with
      | nil => rfl
      | cons c tail =>
          rw [RustBot.stripPrefix, if_neg]
          rintro rfl
          exact hcolon ⟨tail, hstart⟩
    have hidem : labelValue rest = Text.trimStart rest := by
      rw [labelValue, hstrip]
      exact List.dropWhile_idempotent Text.isSpace rest
    have hempty : run' = [] := by
      rw [hstrip, hidem] at hrun'
      exact List.self_eq_append_left.mp hrun'
    subst hempty
    refine ⟨run ++ ([] ++ ([] ++ [])), ?_, ?_⟩
    · conv_lhs => rw [hrun, ← hidem]
      simp
    · have hmark : Passes (opt (lit ":")) [] (([] ++ []) ++ labelValue rest) := by
        refine passes_opt_nil fun c hc => ?_
        rw [List.append_nil, List.nil_append, hidem] at hc
        cases hstart : Text.trimStart rest with
        | nil => exact absurd (hidem.trans hstart) hvalue
        | cons d tail =>
            have hd : d ≠ ':' := by
              rintro rfl
              exact hcolon ⟨tail, hstart⟩
            rw [hstart] at hc
            simp [lit, seqs, matchesAt, hc, hd]
      refine (passes_many_set hspaces ?_).seq (hmark.seq hlast)
      rw [hidem]
      exact hhead

/-- The expression reads a line with a label and a slash. -/
theorem progressRe_exec {label : String} (hlabel : label ∈ labels) {word rest left right : List Char}
    (hword : Folds label.toList word) (hvalue : labelValue rest = left ++ '/' :: right)
    (hleft : '/' ∉ left) (hdots : ∀ c ∈ rest, Text.isLineTerminator c = false) :
    ∃ d, progressRe.exec (word ++ rest) = some d ∧ d.group? 1 = some left ∧
      d.group? 2 = some right := by
  obtain ⟨gap, hgap, hpasses⟩ := @passes_gap rest (by simp [hvalue])
  have hfront := (passes_label hlabel hword (gap ++ labelValue rest)).seq hpasses
  have hstart := hfront ⟨[], word ++ rest, []⟩ (by rw [List.append_assoc, ← hgap])
  have hdots' : ∀ c ∈ left ++ right, Text.isLineTerminator c = false := by
    intro c hc
    apply hdots
    rw [hgap, hvalue]
    rcases List.mem_append.mp hc with hc | hc <;> simp [hc]
  obtain ⟨d, hd, hgroups⟩ := prefers_value hleft hdots'
    (c := Cursor.skip ⟨[], word ++ rest, []⟩ (word ++ gap) (labelValue rest)) hvalue
  refine ⟨d, ?_, hgroups⟩
  have hsplit := matchesAt_seqs_append [oneOf [foldLit "fortschritt", foldLit "progress"],
    many Text.space, opt (lit ":"), many Text.space] valueRe ⟨[], word ++ rest, []⟩
  have hall : Prefers (seqs ([oneOf [foldLit "fortschritt", foldLit "progress"], many Text.space,
      opt (lit ":"), many Text.space] ++ valueRe)) ⟨[], word ++ rest, []⟩ d := by
    rw [Prefers, hsplit]
    exact hstart.seq hd
  exact (exec_bos _).trans hall

theorem mem_foldLit {label : String} {word : List Char} :
    word ∈ (foldLit label).language ↔ Folds label.toList word :=
  @mem_language_seqs_set _ (fun a x => foldChar x == foldChar a) _ _

/-- A line that the expression reads begins with a label and has a slash behind it. -/
theorem of_progressRe {line : List Char} {d : Cursor} (h : progressRe.exec line = some d) :
    ∃ label ∈ labels, Folds label.toList (line.take label.length) ∧
      '/' ∈ line.drop label.length := by
  have htest : progressRe.test line = true := by rw [Re.test, h, Option.isSome_some]
  have hmem := (@test_anchored [oneOf [foldLit "fortschritt", foldLit "progress"],
    many Text.space, opt (lit ":"), many Text.space, group 1 (star false Text.dot), lit "/",
    group 2 (many Text.dot)] (by decide) line).mp htest
  obtain ⟨word, hword, rest, hrest, rfl⟩ := mem_language_seqs_cons.mp hmem
  obtain ⟨slash, hslash, hsub⟩ := exists_part (r := lit "/") (by simp) hrest
  obtain rfl := (mem_language_lit "/".toList slash).mp hslash
  obtain ⟨re, hre, hword⟩ := mem_language_oneOf.mp hword
  have hlabel : ∃ label ∈ labels, Folds label.toList word := by
    simp only [List.mem_cons, List.not_mem_nil, or_false] at hre
    rcases hre with rfl | rfl
    · exact ⟨"fortschritt", by simp [labels], mem_foldLit.mp hword⟩
    · exact ⟨"progress", by simp [labels], mem_foldLit.mp hword⟩
  obtain ⟨label, hlabel, hfolds⟩ := hlabel
  have hlength : label.length = word.length := hfolds.length_eq
  refine ⟨label, hlabel, ?_, ?_⟩
  · rwa [hlength, List.take_left]
  · rw [hlength, List.drop_left]
    exact hsub List.mem_cons_self

/-- Without a long s, the expression folds a label as Rust does. -/
theorem folds_iff {label : String} (hlabel : label ∈ labels) {word : List Char}
    (hword : 'ſ' ∉ word) : Folds label.toList word ↔ word.map Char.toLower = label.toList := by
  have hletters : ∀ a ∈ label.toList, foldChar a = a ∧ a ≠ 'k' := by
    have hall : labels.all (fun label => label.toList.all fun a =>
      decide (foldChar a = a ∧ a ≠ 'k')) = true := by decide
    have hall := List.all_eq_true.mp hall label hlabel
    exact fun a ha => of_decide_eq_true (List.all_eq_true.mp hall a ha)
  generalize label.toList = text at hletters ⊢
  induction text generalizing word with
  | nil =>
      cases word with
      | nil => simp [Folds]
      | cons x word => simp [Folds]
  | cons a text ih =>
      cases word with
      | nil => simp [Folds]
      | cons x word =>
          obtain ⟨ha, hk⟩ := hletters a List.mem_cons_self
          have ih := ih (fun hmem => hword (List.mem_cons_of_mem x hmem))
            fun b hb => hletters b (List.mem_cons_of_mem a hb)
          have hx : x ≠ 'ſ' := fun hx => hword (hx ▸ List.mem_cons_self)
          have hletter : (foldChar x == foldChar a) = true ↔ x.toLower = a := by
            rw [beq_iff_eq, ha, foldChar, if_neg hx]
            by_cases hkelvin : x = '\u212a'
            · subst hkelvin
              have hlower : Char.toLower '\u212a' = '\u212a' := by decide
              rw [if_pos rfl, hlower]
              constructor
              · intro h
                exact absurd h.symm hk
              · rintro rfl
                exact absurd ha (by decide)
            · rw [if_neg hkelvin]
          rw [Folds, List.forall₂_cons, hletter, List.map_cons, List.cons.injEq]
          exact and_congr_right fun _ => ih

/-! ### Lines -/

/-- A line of a tooltip without colour codes and with single spaces. -/
structure Plain (line : List Char) : Prop where
  codes : '§' ∉ line
  spaced : Spaced line
  single : ¬[' ', ' '] <:+: line
  start : line.head? ≠ some ' '
  finish : line.getLast? ≠ some ' '

/-- The value behind the label that Rust sees. -/
def valueOf (line : List Char) (label : String) : List Char := labelValue (line.drop label.length)

theorem trimEnd_eq {text : List Char} (h : Spaced text) (hlast : text.getLast? ≠ some ' ') :
    RustBot.trimEnd text = text := by
  rw [RustBot.trimEnd, RustBot.trimStart]
  cases hrev : text.reverse with
  | nil => rw [List.dropWhile_nil, ← hrev, List.reverse_reverse]
  | cons c rest =>
      have hc : text.getLast? = some c := by
        rw [List.getLast?_eq_head?_reverse, hrev]
        rfl
      rw [List.dropWhile_cons_of_neg, ← hrev, List.reverse_reverse]
      intro hspace
      exact hlast (hc.trans (congrArg some (h c (List.mem_of_getLast? hc) (.inr hspace))))

theorem stripPrefix_suffix (c : Char) (text : List Char) : RustBot.stripPrefix c text <:+ text := by
  cases text with
  | nil => exact List.suffix_refl []
  | cons d rest =>
      rw [RustBot.stripPrefix]
      split
      · exact List.suffix_cons d rest
      · exact List.suffix_refl _

theorem labelValue_suffix (rest : List Char) : labelValue rest <:+ rest :=
  (List.dropWhile_suffix _).trans ((stripPrefix_suffix ':' _).trans (List.dropWhile_suffix _))

theorem valueOf_suffix (line : List Char) (label : String) : valueOf line label <:+ line :=
  (labelValue_suffix _).trans (List.drop_suffix _ _)

theorem getLast?_suffix {a b : List Char} (h : a <:+ b) (hb : b.getLast? ≠ some ' ') :
    a.getLast? ≠ some ' ' := by
  obtain ⟨front, rfl⟩ := h
  cases a with
  | nil => simp
  | cons c a => rwa [List.getLast?_append_of_ne_nil front (List.cons_ne_nil c a)] at hb

theorem Plain.value {line : List Char} (h : Plain line) (label : String) :
    RustBot.trim (RustBot.stripPrefix ':' (RustBot.trimStart (line.drop label.length))) =
      valueOf line label := by
  have hdrop := h.spaced.subset (List.drop_subset label.length line)
  have hvalue := h.spaced.subset (valueOf_suffix line label).subset
  have hlast := getLast?_suffix (valueOf_suffix line label) h.finish
  have hstrip : Spaced (RustBot.stripPrefix ':' (Text.trimStart (line.drop label.length))) :=
    hdrop.subset ((stripPrefix_suffix ':' _).trans (List.dropWhile_suffix _)).subset
  rw [hdrop.trimStart_eq, RustBot.trim, hstrip.trimStart_eq]
  exact trimEnd_eq hvalue hlast

/-- The label in front of a line, letter case aside. -/
def Labelled (line : List Char) (label : String) : Prop :=
  label ∈ labels ∧ (line.take label.length).map Char.toLower = label.toList

theorem labelled_cases {line : List Char} (h : Plain line) :
    (∃ label, Labelled line label ∧
      RustBot.labelled line ["Fortschritt", "Progress"] = some (valueOf line label)) ∨
    (∀ label, ¬Labelled line label) ∧
      RustBot.labelled line ["Fortschritt", "Progress"] = none := by
  have hfirst : "Fortschritt".toList.map Char.toLower = "fortschritt".toList := by decide
  have hsecond : "Progress".toList.map Char.toLower = "progress".toList := by decide
  have hlength : "Fortschritt".length = "fortschritt".length := by decide
  have hlength' : "Progress".length = "progress".length := by decide
  have hvalue := h.value "fortschritt"
  have hvalue' := h.value "progress"
  simp only [RustBot.labelled, List.findSome?_cons, hfirst, hsecond, hlength, hlength', hvalue,
    hvalue', List.findSome?_nil]
  by_cases hlong : (line.take "fortschritt".length).map Char.toLower = "fortschritt".toList
  · refine .inl ⟨"fortschritt", ⟨by simp [labels], hlong⟩, ?_⟩
    rw [if_pos hlong]
  · by_cases hshort : (line.take "progress".length).map Char.toLower = "progress".toList
    · refine .inl ⟨"progress", ⟨by simp [labels], hshort⟩, ?_⟩
      rw [if_neg hlong, if_pos hshort]
    · refine .inr ⟨fun label ⟨hmem, hlabel⟩ => ?_, ?_⟩
      · simp only [labels, List.mem_cons, List.not_mem_nil, or_false] at hmem
        rcases hmem with rfl | rfl
        · exact hlong hlabel
        · exact hshort hlabel
      · rw [if_neg hlong, if_neg hshort]

theorem slash_mem_dropWhile {text : List Char} (h : '/' ∈ text) :
    '/' ∈ Text.trimStart text := by
  have hsplit := List.takeWhile_append_dropWhile (p := Text.isSpace) (l := text)
  rw [← hsplit] at h
  rcases List.mem_append.mp h with h | h
  · exact absurd (List.mem_takeWhile_imp h) (by decide)
  · exact h

theorem slash_mem_labelValue {rest : List Char} (h : '/' ∈ rest) : '/' ∈ labelValue rest := by
  refine slash_mem_dropWhile ?_
  have hstart := slash_mem_dropWhile h
  cases htext : Text.trimStart rest with
  | nil => rw [htext] at hstart; exact hstart
  | cons c text =>
      rw [htext] at hstart
      rw [RustBot.stripPrefix]
      split
      · rename_i hc
        rcases List.mem_cons.mp hstart with hslash | hmem
        · rw [hc] at hslash
          exact absurd hslash (by decide)
        · exact hmem
      · exact hstart

theorem Spaced.no_terminator {text : List Char} (h : Spaced text) :
    ∀ c ∈ text, Text.isLineTerminator c = false := by
  intro c hc
  by_contra hbreak
  rw [Bool.not_eq_false, Text.isLineTerminator, decide_eq_true_eq] at hbreak
  have hspace : Text.isSpace c = true := by
    have hall : ['\n', '\r', '\u2028', '\u2029'].all Text.isSpace = true := by decide
    exact List.all_eq_true.mp hall c hbreak
  rw [h c hc (.inl hspace)] at hbreak
  exact absurd hbreak (by decide)

/-- No label that is plain lower case has a long s. -/
theorem long_not_mem {label : String} (hlabel : label ∈ labels) {word : List Char}
    (h : word.map Char.toLower = label.toList) : 'ſ' ∉ word := by
  intro hmem
  have hlower : Char.toLower 'ſ' = 'ſ' := by decide
  have hin : 'ſ' ∈ label.toList := by
    rw [← h, ← hlower]
    exact List.mem_map_of_mem hmem
  have hall : labels.all (fun label => decide ('ſ' ∉ label.toList)) = true := by decide
  exact of_decide_eq_true (List.all_eq_true.mp hall label hlabel) hin

/-- Without a long s in the label, both readers see the same lines of progress. -/
theorem exec_cases {line : List Char} (h : Plain line) (hlong : ¬LongLabel line) :
    (∃ label left right, Labelled line label ∧ valueOf line label = left ++ '/' :: right ∧
      '/' ∉ left ∧ ∃ d, progressRe.exec line = some d ∧ d.group? 1 = some left ∧
        d.group? 2 = some right) ∨
    (∀ label, Labelled line label → '/' ∉ valueOf line label) ∧ progressRe.exec line = none := by
  by_cases hslash : ∃ label, Labelled line label ∧ '/' ∈ valueOf line label
  · obtain ⟨label, hlabel, hslash⟩ := hslash
    obtain ⟨left, right, hvalue, hleft⟩ := List.eq_append_cons_of_mem hslash
    have hword : Folds label.toList (line.take label.length) :=
      (folds_iff hlabel.1 (long_not_mem hlabel.1 hlabel.2)).mpr hlabel.2
    have hdots : ∀ c ∈ line.drop label.length, Text.isLineTerminator c = false :=
      (h.spaced.subset (List.drop_subset _ _)).no_terminator
    obtain ⟨d, hd⟩ := progressRe_exec hlabel.1 hword hvalue hleft hdots
    rw [List.take_append_drop] at hd
    exact .inl ⟨label, left, right, hlabel, hvalue, hleft, d, hd⟩
  · refine .inr ⟨fun label hlabel hmem => hslash ⟨label, hlabel, hmem⟩, ?_⟩
    cases hexec : progressRe.exec line with
    | none => rfl
    | some d =>
        obtain ⟨label, hmem, hfolds, hdrop⟩ := of_progressRe hexec
        have hshort : 'ſ' ∉ line.take label.length := fun hs => hlong ⟨label, hmem, hfolds, hs⟩
        refine absurd ⟨label, ⟨hmem, (folds_iff hmem hshort).mp hfolds⟩, ?_⟩ hslash
        exact slash_mem_labelValue hdrop

/-! ### Where the readers agree -/

/-- What stands behind the slash of a line of progress. -/
def targetText (line : List Char) : List Char :=
  (((RustBot.labelled line ["Fortschritt", "Progress"]).getD []).dropWhile (· ≠ '/')).drop 1

/-- The percentage that TypeScript takes for the amounts that Rust reads. -/
def shownPercentage (p : RustBot.Progress) (below : List (List Char)) : Option (List Char) :=
  ((percentage p.trailing).or (percentage (RustBot.followingLine below))).or
    (if 0 < p.target then some (flooredPercent p.current p.target) else none)

theorem no_letter_behind {input : List Char} {a : RustBot.Amount} (h : RustBot.amount input = some a)
    (hrest : a.rest = []) : letterBehind input = false := by
  rw [rust_amount_eq] at h
  extract_lets unit at h
  split at h
  · cases h
  · split at h
    · cases h
    · split at h
      · cases h
      · obtain rfl := Option.some.inj h
        have hlength : unit.length = ((amountRest input).takeWhile Char.isAlpha).length :=
          List.length_map _
        rw [letterBehind, dropWhile_eq_drop, ← hlength]
        cases hdrop : (amountRest input).drop unit.length with
        | nil => rfl
        | cons c rest =>
            rw [List.head?_cons, Option.any_some, ← Bool.not_eq_true]
            intro hforeign
            have hc : RustBot.isWhitespace c = false ∧ c ≠ '$' := by
              rcases Bool.or_eq_true_iff.mp hforeign with hc | hc <;> rw [eq_of_beq hc] <;> decide
            have hstart : RustBot.trimStart (c :: rest) = c :: rest :=
              List.dropWhile_cons_of_neg (Bool.eq_false_iff.mp hc.1)
            rw [hdrop, hstart, RustBot.stripPrefix, if_neg hc.2, RustBot.trim, hstart, RustBot.trimEnd,
              List.reverse_eq_nil_iff, RustBot.trimStart, List.dropWhile_eq_nil_iff] at hrest
            exact absurd (hrest c (by simp)) (Bool.eq_false_iff.mp hc.1)

theorem Labelled.unique {line : List Char} {label label' : String} (h : Labelled line label)
    (h' : Labelled line label') : label = label' := by
  obtain ⟨hmem, hlabel⟩ := h
  obtain ⟨hmem', hlabel'⟩ := h'
  cases line with
  | nil =>
      simp only [List.take_nil, List.map_nil] at hlabel hlabel'
      exact String.toList_injective (hlabel.symm.trans hlabel')
  | cons c line =>
      simp only [labels, List.mem_cons, List.not_mem_nil, or_false] at hmem hmem'
      have hf : (c :: line).take "fortschritt".length = c :: line.take 10 := rfl
      have hp : (c :: line).take "progress".length = c :: line.take 7 := rfl
      have hne : c.toLower = 'f' → c.toLower ≠ 'p' := fun hc hc' => absurd (hc.symm.trans hc') (by decide)
      rcases hmem with rfl | rfl <;> rcases hmem' with rfl | rfl
      · rfl
      · rw [hf] at hlabel
        rw [hp] at hlabel'
        exact absurd (List.cons.inj hlabel').1 (hne (List.cons.inj hlabel).1)
      · rw [hp] at hlabel
        rw [hf] at hlabel'
        exact absurd (List.cons.inj hlabel).1 (hne (List.cons.inj hlabel').1)
      · rfl

theorem progressOf_eq {line : List Char} (h : Plain line) (hlong : ¬LongLabel line)
    (below : List (List Char)) : progressOf line below =
      (RustBot.progressLine line).bind fun p =>
        if letterBehind (targetText line) then none
        else (shownPercentage p below).map (progressText p.currentText p.targetText) := by
  rcases exec_cases h hlong with ⟨label, left, right, hlabel, hvalue, hleft, d, hexec, hone, htwo⟩ |
    ⟨hslash, hexec⟩
  · have hlabelled : RustBot.labelled line ["Fortschritt", "Progress"] =
        some (left ++ '/' :: right) := by
      rcases labelled_cases h with ⟨label', hlabel', hread⟩ | ⟨hnone, -⟩
      · rw [hread, hlabel'.unique hlabel, hvalue]
      · exact absurd hlabel (hnone label)
    have hchars : ∀ c ∈ left, decide (c ≠ '/') = true :=
      fun c hc => decide_eq_true (fun hslash => hleft (hslash ▸ hc))
    have htake : (left ++ '/' :: right).takeWhile (· ≠ '/') = left := by
      rw [List.takeWhile_append_of_pos hchars, List.takeWhile_cons_of_neg (by simp), List.append_nil]
    have hdrop : ((left ++ '/' :: right).dropWhile (· ≠ '/')).drop 1 = right := by
      rw [List.dropWhile_append_of_pos hchars, List.dropWhile_cons_of_neg (by simp)]
      rfl
    have hright : targetText line = right := by
      rw [targetText, hlabelled]
      exact hdrop
    have hspaced := h.spaced.subset (valueOf_suffix line label).subset
    rw [hvalue] at hspaced
    have hl := hspaced.subset (List.subset_append_left left ('/' :: right))
    have hr := hspaced.subset (List.subset_append_of_subset_right left (List.subset_cons_self '/' right))
    have hmem : ¬('/' ∉ left ++ '/' :: right) := by simp
    rw [hright]
    unfold progressOf RustBot.progressLine
    simp only [hexec, hone, htwo, hlabelled, htake, hdrop, if_neg hmem, amount_eq hl,
      amount_eq hr, money_eq, Option.bind_eq_bind, Option.bind_some]
    cases hleftAmount : RustBot.amount left with
    | none => simp
    | some l =>
        by_cases hrest : l.rest = []
        · rw [no_letter_behind hleftAmount hrest]
          simp only [Bool.false_eq_true, if_false, Option.map_some, Option.bind_some, hrest,
            ne_eq, not_true_eq_false]
          by_cases hbehind : letterBehind right = true
          · simp [hbehind]
          · simp only [if_neg hbehind]
            cases RustBot.amount right with
            | none => rfl
            | some r =>
                cases money l.text with
                | none => rfl
                | some current =>
                    cases hvalue : money r.text with
                    | none => simp [hvalue]
                    | some target =>
                        simp only [Option.map_some, Option.bind_some, hvalue]
                        rw [Option.map_eq_bind]
                        rfl
        · simp [hrest]
  · have hnone : RustBot.progressLine line = none := by
      unfold RustBot.progressLine
      rcases labelled_cases h with ⟨label, hlabel, hread⟩ | ⟨-, hread⟩
      · have hmem := hslash label hlabel
        simp only [hread, Option.bind_eq_bind, Option.bind_some, if_pos hmem]
        rfl
      · simp only [hread, Option.bind_eq_bind, Option.bind_none]
    unfold progressOf
    simp only [hexec, hnone, Option.bind_eq_bind, Option.bind_none]

/-- The lines that count have no long s in a label, no letter of such a kind behind a target and no
number at a later percent sign only. -/
def Ordinary : List (List Char) → Prop
  | [] => True
  | line :: below =>
      ¬LongLabel line ∧
        match RustBot.progressLine line with
        | none => Ordinary below
        | some p =>
            letterBehind (targetText line) = false ∧ ¬Stray p.trailing ∧
              (RustBot.percentage p.trailing = none → ¬Stray (RustBot.followingLine below) ∧
                (RustBot.percentage (RustBot.followingLine below) = none →
                  0 < p.target ∨ Ordinary below))

theorem rust_trim_subset (text : List Char) : RustBot.trim text ⊆ text := by
  intro c hc
  have hend := (List.dropWhile_sublist _).subset (List.mem_reverse.mp hc)
  exact (List.dropWhile_sublist _).subset (List.mem_reverse.mp hend)

theorem rust_rest_subset {input : List Char} {a : RustBot.Amount} (h : RustBot.amount input = some a) :
    a.rest ⊆ input := by
  have hstart : amountStart input ⊆ input :=
    List.Subset.trans (List.dropWhile_sublist _).subset
      (List.Subset.trans (stripPrefix_subset '$' _) (List.dropWhile_sublist _).subset)
  have hbehind : amountRest input ⊆ input :=
    List.Subset.trans (List.dropWhile_sublist _).subset
      (List.Subset.trans (List.drop_subset _ _) hstart)
  rw [rust_amount_eq] at h
  extract_lets unit at h
  split at h
  · cases h
  · split at h
    · cases h
    · split at h
      · cases h
      · obtain rfl := Option.some.inj h
        have htail : RustBot.trimStart ((amountRest input).drop unit.length) ⊆ input :=
          List.Subset.trans (List.dropWhile_sublist _).subset
            (List.Subset.trans (List.drop_subset _ _) hbehind)
        exact List.Subset.trans (rust_trim_subset _)
          (List.Subset.trans (stripPrefix_subset '$' _) htail)

theorem trailing_spaced {line : List Char} (h : Plain line) {p : RustBot.Progress}
    (hp : RustBot.progressLine line = some p) : Spaced p.trailing := by
  unfold RustBot.progressLine at hp
  simp only [Option.bind_eq_bind, Option.bind_eq_some_iff] at hp
  obtain ⟨value, hvalue, hp⟩ := hp
  have hsub : value ⊆ line := by
    rcases labelled_cases h with ⟨label, -, hread⟩ | ⟨-, hread⟩
    · obtain rfl := Option.some.inj (hread.symm.trans hvalue)
      exact (valueOf_suffix line label).subset
    · rw [hread] at hvalue
      cases hvalue
  split at hp
  · simp at hp
  · simp only [Option.bind_eq_some_iff] at hp
    obtain ⟨left, -, hp⟩ := hp
    split at hp
    · simp at hp
    · simp only [Option.bind_eq_some_iff] at hp
      obtain ⟨right, hright, current, -, target, -, hp⟩ := hp
      obtain rfl := Option.some.inj hp
      exact h.spaced.subset (List.Subset.trans (rust_rest_subset hright)
        (List.Subset.trans (List.drop_subset _ _)
          (List.Subset.trans (List.dropWhile_sublist _).subset hsub)))

theorem following_spaced {lines : List (List Char)} (h : ∀ line ∈ lines, Plain line) :
    Spaced (RustBot.followingLine lines) := by
  rw [RustBot.followingLine]
  cases hfind : lines.find? (· ≠ []) with
  | none => simp [Spaced]
  | some line => exact (h line (List.mem_of_find?_eq_some hfind)).spaced

/-- What `PercentShown` and `Ordinary` say about one line. -/
theorem shownPercentage_eq {line : List Char} {below : List (List Char)}
    (hplain : ∀ l ∈ line :: below, Plain l) {p : RustBot.Progress}
    (hp : RustBot.progressLine line = some p) (hshown : PercentShown (line :: below))
    (hordinary : Ordinary (line :: below)) : shownPercentage p below = p.percent below := by
  have hline := trailing_spaced (hplain line List.mem_cons_self) hp
  have hbelow := following_spaced fun l hl => hplain l (List.mem_cons_of_mem line hl)
  simp only [Ordinary, hp] at hordinary
  simp only [PercentShown, hp] at hshown
  obtain ⟨-, -, hstray, hnext⟩ := hordinary
  rw [shownPercentage, RustBot.Progress.percent]
  have htrailing : percentage p.trailing = RustBot.percentage p.trailing := by
    refine percentage_eq hline hstray fun text htext => ?_
    rw [htext, Option.isSome_some, if_pos rfl, ← (rust_percentage_spec htext).1] at hshown
    exact hshown
  rw [htrailing]
  cases htaken : RustBot.percentage p.trailing with
  | some text => rfl
  | none =>
      rw [htaken, Option.isSome_none, if_neg Bool.false_ne_true] at hshown
      have hfollowing : percentage (RustBot.followingLine below) =
          RustBot.percentage (RustBot.followingLine below) := by
        refine percentage_eq hbelow (hnext htaken).1 fun text htext => ?_
        rw [htext, Option.isSome_some, if_pos rfl, ← (rust_percentage_spec htext).1] at hshown
        exact hshown
      rw [hfollowing]

theorem readProgress_eq {lines : List (List Char)} (hplain : ∀ line ∈ lines, Plain line)
    (hshown : PercentShown lines) (hordinary : Ordinary lines) :
    readProgress lines = RustBot.readProgress lines := by
  induction lines with
  | nil => rfl
  | cons line below ih =>
      have ih := ih fun l hl => hplain l (List.mem_cons_of_mem line hl)
      have hline := progressOf_eq (hplain line List.mem_cons_self) hordinary.1 below
      rw [readProgress, RustBot.readProgress, hline]
      cases hp : RustBot.progressLine line with
      | none =>
          simp only [PercentShown, hp] at hshown
          simp only [Ordinary, hp] at hordinary
          rw [Option.bind_none, Option.none_or]
          exact ih hshown hordinary.2
      | some p =>
          have hpercent := shownPercentage_eq hplain hp hshown hordinary
          simp only [Ordinary, hp] at hordinary
          simp only [PercentShown, hp] at hshown
          obtain ⟨-, hletter, -, hnext⟩ := hordinary
          rw [Option.bind_some, Option.bind_some, hletter, if_neg Bool.false_ne_true, hpercent]
          cases htaken : p.percent below with
          | some percent => rfl
          | none =>
              rw [RustBot.Progress.percent, Option.or_eq_none_iff, Option.or_eq_none_iff] at htaken
              obtain ⟨⟨htrailing, hfollowing⟩, htarget⟩ := htaken
              have hzero : ¬0 < p.target := by
                intro hpos
                rw [if_pos hpos] at htarget
                cases htarget
              rw [htrailing, hfollowing] at hshown
              simp only [Option.isSome_none, Bool.false_eq_true, if_false] at hshown
              exact ih (hshown.resolve_left hzero)
                (((hnext htrailing).2 hfollowing).resolve_left hzero)

theorem percentShown_of_none {lines : List (List Char)} (h : RustBot.readProgress lines = none) :
    PercentShown lines := by
  induction lines with
  | nil => trivial
  | cons line below ih =>
      rw [RustBot.readProgress] at h
      split at h
      · cases h
      · rename_i hread
        refine (percentShown_cons fun p hline => ?_).mpr (ih h)
        rw [hline, Option.bind_some, Option.map_eq_none_iff] at hread
        exact hread

/-- The two readers of a progress agree on ordinary lines whose percentage begins and ends with a
digit, and they never agree where it does not. -/
theorem readers_agree (lines : List (List Char)) (hplain : ∀ line ∈ lines, Plain line) :
    (PercentShown lines ∧ Ordinary lines → readProgress lines = RustBot.readProgress lines) ∧
      (readProgress lines = RustBot.readProgress lines → PercentShown lines) := by
  refine ⟨fun h => readProgress_eq hplain h.1 h.2, fun heq => ?_⟩
  cases hread : RustBot.readProgress lines with
  | none => exact percentShown_of_none hread
  | some text =>
      obtain ⟨_, _, _, hparts, hpercent⟩ := readProgress_spec (heq.trans hread)
      obtain ⟨_, _, _, hparts', hpercent'⟩ := rust_readProgress_spec hread
      exact hpercent'.mp (hparts'.valid_iff.2.mp (hparts.valid_iff.2.mpr hpercent))

theorem spaced_iff {text : List Char} : text.all (fun c =>
    !(Text.isSpace c || RustBot.isWhitespace c) || c == ' ') = true ↔ Spaced text := by
  rw [List.all_eq_true]
  refine forall₂_congr fun c _ => ?_
  rw [Bool.or_eq_true, Bool.not_eq_true', beq_iff_eq, ← Bool.or_eq_true, ← Bool.not_eq_true]
  exact ⟨fun h hspace => h.resolve_left fun hno => hno hspace,
    fun h => or_iff_not_imp_left.mpr fun hno => h (not_not.mp hno)⟩

instance : DecidablePred Plain := fun line =>
  decidable_of_iff ('§' ∉ line ∧ line.all (fun c =>
      !(Text.isSpace c || RustBot.isWhitespace c) || c == ' ') = true ∧
      ¬[' ', ' '] <:+: line ∧ line.head? ≠ some ' ' ∧ line.getLast? ≠ some ' ')
    ⟨fun ⟨hcodes, hspaced, hsingle, hstart, hfinish⟩ =>
      ⟨hcodes, spaced_iff.mp hspaced, hsingle, hstart, hfinish⟩,
    fun h => ⟨h.codes, spaced_iff.mpr h.spaced, h.single, h.start, h.finish⟩⟩

theorem not_long {line : List Char} (h : 'ſ' ∉ line) : ¬LongLabel line := by
  rintro ⟨_, -, -, hmem⟩
  exact h (List.mem_of_mem_take hmem)

theorem not_stray {line : List Char} (h : line.count '%' ≤ 1) : ¬Stray line := by
  rintro ⟨front, ⟨⟨⟨rest, rfl⟩, -⟩, -⟩, hfront, -⟩
  have hpos := List.count_pos_iff.mpr hfront
  rw [List.count_append, List.count_cons_self] at h
  omega

deriving instance DecidableEq for RustBot.Progress

/-- A later percent sign may still show what the amounts yield. -/
example : readProgress ["Progress: 1/2 (%) 50%".toList] =
    RustBot.readProgress ["Progress: 1/2 (%) 50%".toList] := by decide +kernel

/-- Lines that show their percentage below. -/
def shownBelow : List (List Char) :=
  ["Fortschritt: $26,28M / $150M".toList, "[███░░] 17%".toList]

theorem progressLine_shownBelow : RustBot.progressLine "Fortschritt: $26,28M / $150M".toList =
    some ⟨"26,28M".toList, "150M".toList, [], 26280000, 150000000⟩ := by
  decide +kernel

theorem readers_agree_shownBelow :
    readProgress shownBelow = RustBot.readProgress shownBelow := by
  have htrailing : RustBot.percentage [] = none := by decide
  have hbelow : RustBot.percentage (RustBot.followingLine ["[███░░] 17%".toList]) =
      some ['1', '7'] := by decide +kernel
  refine (readers_agree shownBelow (by decide +kernel)).1 ⟨?_, ?_⟩
  · simp only [shownBelow, PercentShown, progressLine_shownBelow, htrailing, hbelow,
      Option.isSome_none, Option.isSome_some, Bool.false_eq_true, if_false, if_true]
    exact ⟨by decide +kernel, by decide +kernel⟩
  · simp only [shownBelow, Ordinary, progressLine_shownBelow, htrailing, hbelow]
    refine ⟨not_long (by decide +kernel), by decide +kernel, not_stray (by decide), fun _ =>
      ⟨not_stray (by decide +kernel), ?_⟩⟩
    rintro ⟨⟩

/-- A separator in front of the percentage. -/
def separatorBelow : List (List Char) :=
  ["Fortschritt: $600K / $800K".toList, "[███] ,5%".toList]

theorem readers_disagree :
    ¬∀ lines : List (List Char), (∀ line ∈ lines, Plain line) →
      readProgress lines = RustBot.readProgress lines := by
  intro h
  exact absurd (h separatorBelow (by decide +kernel)) (by decide +kernel)

end AfkClient.Multipliers

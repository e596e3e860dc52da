import AfkClient.Library.RegexSearch
import AfkClient.Verification.SellEarnings.Amounts
import Mathlib.Data.List.TakeWhile

/-! What the parser makes of a message: colour codes away, the payout at the first place that has
the form of one, and its amount in whole cents. -/

namespace AfkClient.SellEarnings

open Re Text

/-! ### Colour codes -/

/-- The message is the text with colour codes anywhere. -/
inductive Coloured : List Char → List Char → Prop where
  | nil : Coloured [] []
  | char {c : Char} {text message : List Char} (h : c ≠ '§') (rest : Coloured text message) :
      Coloured (c :: text) (c :: message)
  | code {d : Char} {text message : List Char} (h : isFormatCode d = true)
      (rest : Coloured text message) : Coloured text ('§' :: d :: message)

theorem Coloured.stripFormatting {text message : List Char} (h : Coloured text message) :
    stripFormatting message = text := by
  unfold AfkClient.stripFormatting
  induction h with
  | nil => rfl
  | @char c text message h rest ih =>
      have hstep : removeFormatCodes (c :: message) = c :: removeFormatCodes message := by
        cases message with
        | nil => rfl
        | cons d message => simp [removeFormatCodes, h]
      rw [hstep, List.filter_cons_of_pos (by simpa using h), ih]
  | @code d text message h rest ih =>
      have hstep : removeFormatCodes ('§' :: d :: message) = removeFormatCodes message := by
        simp [removeFormatCodes, h]
      rw [hstep, ih]

theorem Coloured.refl {text : List Char} (h : ∀ c ∈ text, c ≠ '§') : Coloured text text := by
  induction text with
  | nil => exact .nil
  | cons c text ih => exact .char (h c (by simp)) (ih fun d hd => h d (by simp [hd]))

theorem Coloured.append {text message text' message' : List Char} (h : Coloured text message)
    (h' : Coloured text' message') : Coloured (text ++ text') (message ++ message') := by
  induction h with
  | nil => exact h'
  | char h _ ih => exact .char h ih
  | code h _ ih => exact .code h ih

/-! ### Words -/

/-- The letters of the word, in either case. -/
def Spelled (word : String) (text : List Char) : Prop :=
  List.Forall₂ (fun a x => sameLetter a x) word.toList text

/-- One of the words stands in the text, as a whole word. -/
def Says (words : List String) (text : List Char) : Prop :=
  ∃ a word b, text = a ++ (word ++ b) ∧ (∃ w ∈ words, Spelled w word) ∧
    Edge a (word ++ b) ∧ Edge (a ++ word) b

/-- The label and a colon stand in the text. -/
def Labelled (label : String) (text : List Char) : Prop :=
  ∃ a word spaces b, text = a ++ (word ++ (spaces ++ ':' :: b)) ∧ Spelled label word ∧
    (∀ c ∈ spaces, isSpace c = true) ∧ Edge a (word ++ (spaces ++ ':' :: b))

def saleWords : List String := ["sold", "sale", "selling", "verkauft", "verkauf"]

def paymentWords : List String := ["pay", "paid", "bezahlt", "received", "erhalten von"]

/-- A message with a base and a bonus. -/
def Breakdown (text : List Char) : Prop := Labelled "basis" text ∧ Labelled "bonus" text

theorem anchorless_ilit (text : String) : (ilit text).anchorless = true := by
  unfold ilit
  induction text.toList with
  | nil => rfl
  | cons c letters ih => simpa [seqs, anchorless] using ih

theorem anchorless_oneOf {rs : List Re} (h : ∀ r ∈ rs, r.anchorless = true) :
    (oneOf rs).anchorless = true := by
  induction rs with
  | nil => rfl
  | cons r rs ih =>
      cases rs with
      | nil => exact h r (by simp)
      | cons s rs =>
          have hrest := ih fun r hr => h r (by simp [hr])
          change (r.anchorless && (oneOf (s :: rs)).anchorless) = true
          rw [h r (by simp), hrest]
          rfl

theorem words_test (words : List String) (text : List Char) :
    (seqs [boundary, oneOf (words.map ilit), boundary]).test text = true ↔ Says words text := by
  have hwords : (oneOf (words.map ilit)).anchorless = true := by
    refine anchorless_oneOf fun r hr => ?_
    obtain ⟨word, -, rfl⟩ := List.mem_map.mp hr
    exact anchorless_ilit word
  have hspelled : ∀ word, word ∈ (oneOf (words.map ilit)).language ↔
      ∃ w ∈ words, Spelled w word := by
    intro word
    rw [mem_language_oneOf]
    simp only [List.mem_map, exists_exists_and_eq_and, mem_language_ilit, Spelled]
  rw [test_word hwords]
  simp only [hspelled, Says]

theorem saleWord_test (text : List Char) : saleWord.test text = true ↔ Says saleWords text :=
  words_test saleWords text

theorem paymentWord_test (text : List Char) :
    paymentWord.test text = true ↔ Says paymentWords text :=
  words_test paymentWords text

theorem mem_spaces {text : List Char} :
    text ∈ (many space).language ↔ ∀ c ∈ text, isSpace c = true := mem_language_many_set

theorem label_test (label : String) (text : List Char) :
    (seqs [boundary, ilit label, many space, lit ":"]).test text = true ↔
      Labelled label text := by
  have hanchorless : (seqs [ilit label, many space, lit ":"]).anchorless = true := by
    change ((ilit label).anchorless && _) = true
    rw [anchorless_ilit]
    rfl
  have hlabel : ∀ word, word ∈ (seqs [ilit label, many space, lit ":"]).language ↔
      ∃ letters, Spelled label letters ∧ ∃ spaces, (∀ c ∈ spaces, isSpace c = true) ∧
        word = letters ++ (spaces ++ [':']) := by
    intro word
    rw [mem_language_seqs_cons]
    simp only [mem_language_ilit, mem_language_seqs_pair, mem_spaces]
    constructor
    · rintro ⟨letters, hletters, _, ⟨spaces, hspaces, colon, hcolon, rfl⟩, rfl⟩
      obtain rfl : colon = [':'] := (mem_language_lit [':'] colon).mp hcolon
      exact ⟨letters, hletters, spaces, hspaces, rfl⟩
    · rintro ⟨letters, hletters, spaces, hspaces, rfl⟩
      exact ⟨letters, hletters, _,
        ⟨spaces, hspaces, [':'], (mem_language_lit [':'] [':']).mpr rfl, rfl⟩, rfl⟩
  refine (test_boundary hanchorless text).trans ?_
  constructor
  · rintro ⟨a, word, b, rfl, hword, hedge⟩
    obtain ⟨letters, hletters, spaces, hspaces, rfl⟩ := (hlabel word).mp hword
    exact ⟨a, letters, spaces, b, by simp, hletters, hspaces, by simpa using hedge⟩
  · rintro ⟨a, letters, spaces, b, rfl, hletters, hspaces, hedge⟩
    exact ⟨a, letters ++ (spaces ++ [':']), b, by simp,
      (hlabel _).mpr ⟨letters, hletters, spaces, hspaces, rfl⟩, by simpa using hedge⟩

theorem isBreakdown_iff (text : List Char) : isBreakdown text = true ↔ Breakdown text := by
  rw [isBreakdown, Bool.and_eq_true, Breakdown]
  exact and_congr (label_test "basis" text) (label_test "bonus" text)

/-! ### Amounts in a text -/

/-- More digits, each time behind a point or a comma. -/
inductive Pieces : List Char → Prop where
  | nil : Pieces []
  | cons {mark : Char} {digits rest : List Char} (hmark : mark = '.' ∨ mark = ',')
      (hdigits : Digits digits) (hrest : Pieces rest) : Pieces (mark :: (digits ++ rest))

/-- Digits that points and commas divide. -/
inductive Token : List Char → Prop where
  | intro {whole pieces : List Char} (hwhole : Digits whole) (hpieces : Pieces pieces) :
      Token (whole ++ pieces)

/-- In front of this text a token is at its end. -/
structure Ends (rest : List Char) : Prop where
  digit : ∀ x ∈ rest.head?, x.isDigit = false
  mark : ∀ c d tail, rest = c :: d :: tail → c = '.' ∨ c = ',' → d.isDigit = false

/-- The amount behind the dollar sign that begins the text, as far as it goes. -/
inductive PlainAt : List Char → List Char → Prop where
  | intro {spaces raw rest : List Char} (hspaces : ∀ c ∈ spaces, isSpace c = true)
      (hraw : Token raw) (hrest : Ends rest) : PlainAt ('$' :: (spaces ++ (raw ++ rest))) raw

/-- The amount between the plus and dollar signs that begin the text and `(Basis:`. -/
inductive PayoutAt : List Char → List Char → Prop where
  | intro {s₁ s₂ raw s₃ s₄ basis s₅ rest : List Char} (h₁ : ∀ c ∈ s₁, isSpace c = true)
      (h₂ : ∀ c ∈ s₂, isSpace c = true) (hraw : Token raw) (h₃ : ∀ c ∈ s₃, isSpace c = true)
      (h₄ : ∀ c ∈ s₄, isSpace c = true) (hbasis : Spelled "basis" basis)
      (h₅ : ∀ c ∈ s₅, isSpace c = true) :
      PayoutAt ('+' :: (s₁ ++ '$' :: (s₂ ++ (raw ++ (s₃ ++ '(' ::
        (s₄ ++ (basis ++ (s₅ ++ ':' :: rest)))))))) raw

theorem mem_pieces {text : List Char} :
    text ∈ (many (seq separator (some1 digit))).language ↔ Pieces text := by
  have hpiece : ∀ piece, piece ∈ (seq separator (some1 digit)).language ↔
      ∃ mark digits, (mark = '.' ∨ mark = ',') ∧ Digits digits ∧ piece = mark :: digits := by
    intro piece
    rw [mem_language_seq]
    simp only [mem_digits]
    constructor
    · rintro ⟨mark, hmark, digits, hdigits, rfl⟩
      rcases mem_separator.mp hmark with rfl | rfl
      · exact ⟨'.', digits, .inl rfl, hdigits, rfl⟩
      · exact ⟨',', digits, .inr rfl, hdigits, rfl⟩
    · rintro ⟨mark, digits, hmark, hdigits, rfl⟩
      exact ⟨[mark], mem_separator.mpr (by simpa using hmark), digits, hdigits, rfl⟩
  constructor
  · rintro ⟨pieces, rfl, hpieces⟩
    induction pieces with
    | nil => exact .nil
    | cons piece pieces ih =>
        obtain ⟨mark, digits, hmark, hdigits, rfl⟩ := (hpiece piece).mp (hpieces piece (by simp))
        exact .cons hmark hdigits (ih fun p hp => hpieces p (by simp [hp]))
  · intro h
    induction h with
    | nil => exact ⟨[], rfl, by simp⟩
    | @cons mark digits rest hmark hdigits _ ih =>
        obtain ⟨pieces, rfl, hpieces⟩ := ih
        refine ⟨(mark :: digits) :: pieces, rfl, ?_⟩
        simpa using ⟨(hpiece _).mpr ⟨mark, digits, hmark, hdigits, rfl⟩, hpieces⟩

theorem mem_token {text : List Char} : text ∈ payoutAmount.language ↔ Token text := by
  change text ∈ (seq (some1 digit) (many (seq separator (some1 digit)))).language ↔ _
  rw [mem_language_seq]
  simp only [mem_digits, mem_pieces]
  constructor
  · rintro ⟨whole, hwhole, pieces, hpieces, rfl⟩
    exact .intro hwhole hpieces
  · rintro ⟨hwhole, hpieces⟩
    exact ⟨_, hwhole, _, hpieces, rfl⟩

theorem Digits.head {text : List Char} (h : Digits text) :
    ∃ d rest, text = d :: rest ∧ d.isDigit = true := by
  cases text with
  | nil => exact absurd rfl h.ne_nil
  | cons d rest => exact ⟨d, rest, rfl, h.digit d (by simp)⟩

theorem Token.head {raw : List Char} (h : Token raw) :
    ∃ d rest, raw = d :: rest ∧ d.isDigit = true := by
  cases h with
  | @intro whole pieces hwhole hpieces =>
      obtain ⟨d, rest, rfl, hd⟩ := hwhole.head
      exact ⟨d, rest ++ pieces, rfl, hd⟩

theorem Token.append {digits raw : List Char} {mark : Char} (hdigits : Digits digits)
    (hmark : mark = '.' ∨ mark = ',') (h : Token raw) : Token (digits ++ mark :: raw) := by
  cases h with
  | intro hwhole hpieces => exact .intro hdigits (.cons hmark hwhole hpieces)

/-- Where a digit stands, a token does. -/
theorem exists_token {d : Char} (hd : d.isDigit = true) (text : List Char) :
    ∃ raw rest, d :: text = raw ++ rest ∧ Token raw ∧ Ends rest := by
  induction hlength : text.length using Nat.strong_induction_on generalizing d text with
  | _ length ih =>
      have hsplit := List.takeWhile_append_dropWhile (p := Char.isDigit) (l := text)
      have hwhole : Digits (d :: text.takeWhile Char.isDigit) := by
        refine ⟨by simp, fun c hc => ?_⟩
        rcases List.mem_cons.mp hc with rfl | hc
        · exact hd
        · exact List.mem_takeWhile_imp hc
      have hhead : ∀ x ∈ (text.dropWhile Char.isDigit).head?, x.isDigit = false := by
        intro x hx
        have hnot := List.head?_dropWhile_not Char.isDigit text
        rw [Option.mem_def.mp hx] at hnot
        simpa using hnot
      by_cases hmore : ∃ mark e tail, text.dropWhile Char.isDigit = mark :: e :: tail ∧
          (mark = '.' ∨ mark = ',') ∧ e.isDigit = true
      · obtain ⟨mark, e, tail, hdrop, hmark, he⟩ := hmore
        have hlt : tail.length < length := by
          have hsize := congrArg List.length hsplit
          rw [hdrop, List.length_append, List.length_cons, List.length_cons] at hsize
          omega
        obtain ⟨raw, rest, hraw, htoken, hends⟩ := ih tail.length hlt he tail rfl
        refine ⟨d :: text.takeWhile Char.isDigit ++ mark :: raw, rest, ?_,
          htoken.append hwhole hmark, hends⟩
        rw [List.append_assoc, List.cons_append, List.cons_append, ← hraw, ← hdrop, hsplit]
      · refine ⟨d :: text.takeWhile Char.isDigit, text.dropWhile Char.isDigit, ?_, ?_, hhead, ?_⟩
        · rw [List.cons_append, hsplit]
        · simpa using Token.intro hwhole .nil
        · intro mark e tail htail hmark
          by_contra he
          exact hmore ⟨mark, e, tail, htail, hmark, by simpa using he⟩

/-! ### What the expressions capture -/

theorem Pieces.head {pieces rest : List Char} (h : Pieces pieces) (hrest : Ends rest) :
    ∀ x ∈ (pieces ++ rest).head?, x.isDigit = false := by
  cases h with
  | nil => exact hrest.digit
  | cons hmark _ _ =>
      intro x hx
      obtain rfl := Option.some.inj hx
      rcases hmark with rfl | rfl <;> rfl

theorem passes_pieces {pieces rest : List Char} (h : Pieces pieces) (hrest : Ends rest) :
    Passes (many (seq separator (some1 digit))) pieces rest := by
  induction h with
  | nil =>
      refine passes_many_nil fun c hc => ?_
      by_contra hne
      have hanchorless : (seq separator (some1 digit)).anchorless = true := rfl
      obtain ⟨word, rest', hword, hmem⟩ := (matchesAt_ne_nil hanchorless).mp hne
      obtain ⟨mark, hmark, digits, hdigits, rfl⟩ := mem_language_seq.mp hmem
      obtain ⟨d, digits, rfl, hd⟩ := (mem_digits.mp hdigits).head
      rw [hc] at hword
      rcases mem_separator.mp hmark with rfl | rfl
      · rw [hrest.mark '.' d (digits ++ rest') (by simpa using hword) (.inl rfl)] at hd
        cases hd
      · rw [hrest.mark ',' d (digits ++ rest') (by simpa using hword) (.inr rfl)] at hd
        cases hd
  | @cons mark digits pieces hmark hdigits hpieces ih =>
      have hmark' : (mark == '.' || mark == ',') = true := by simpa using hmark
      have hdigits' : Passes (some1 digit) digits (pieces ++ rest) :=
        passes_some1_set hdigits.ne_nil hdigits.digit (hpieces.head hrest)
      exact ((passes_set hmark' (digits ++ (pieces ++ rest))).seq hdigits').round (by simp) ih

theorem passes_token {raw rest : List Char} (h : Token raw) (hrest : Ends rest) :
    Passes (seq (some1 digit) (many (seq separator (some1 digit)))) raw rest := by
  cases h with
  | @intro whole pieces hwhole hpieces =>
      have hfirst := passes_some1_set hwhole.ne_nil hwhole.digit (hpieces.head hrest)
      exact hfirst.seq (passes_pieces hpieces hrest)

theorem ends_of_head {rest : List Char}
    (h : ∀ x ∈ rest.head?, x.isDigit = false ∧ x ≠ '.' ∧ x ≠ ',') : Ends rest where
  digit x hx := (h x hx).1
  mark c d tail hrest hmark := by
    obtain ⟨-, hpoint, hcomma⟩ := h c (by simp [hrest])
    rcases hmark with rfl | rfl
    · exact absurd rfl hpoint
    · exact absurd rfl hcomma

/-- In front of white space and an opening bracket, a token is at its end. -/
theorem ends_bracket {spaces : List Char} (h : ∀ c ∈ spaces, isSpace c = true) (rest : List Char) :
    Ends (spaces ++ '(' :: rest) := by
  apply ends_of_head
  intro x hx
  cases spaces with
  | nil =>
      obtain rfl := Option.some.inj hx
      decide
  | cons c spaces =>
      obtain rfl := Option.some.inj hx
      have hspace := h c (by simp)
      refine ⟨?_, ?_, ?_⟩
      · by_contra hdigit
        rw [not_space_of_digit (by simpa using hdigit)] at hspace
        cases hspace
      · rintro rfl
        exact absurd hspace (by decide)
      · rintro rfl
        exact absurd hspace (by decide)

theorem passes_spaces {spaces rest : List Char} (h : ∀ c ∈ spaces, isSpace c = true)
    (hrest : ∀ x ∈ rest.head?, isSpace x = false) : Passes (many space) spaces rest :=
  passes_many_set h hrest

theorem Token.not_space {raw : List Char} (h : Token raw) (rest : List Char) :
    ∀ x ∈ (raw ++ rest).head?, isSpace x = false := by
  obtain ⟨d, tail, rfl, hd⟩ := h.head
  intro x hx
  obtain rfl := Option.some.inj hx
  exact not_space_of_digit hd

theorem PlainAt.prefers {text raw : List Char} (h : PlainAt text raw) (before : List Char) :
    ∃ d, Prefers plainPayout ⟨before, text, []⟩ d ∧ d.group? 1 = some raw := by
  cases h with
  | @intro spaces raw rest hspaces hraw hrest =>
      have hfront : Passes (seqs [lit "$", many space]) ("$".toList ++ (spaces ++ []))
          (raw ++ ([] ++ rest)) :=
        (passes_lit "$" _).seq
          ((passes_spaces hspaces (by exact hraw.not_space _)).seq (passes_eps _))
      exact hfront.capture (passes_token hraw hrest) (passes_eps rest) (by simp)

theorem PayoutAt.prefers {text raw : List Char} (h : PayoutAt text raw) (before : List Char) :
    ∃ d, Prefers breakdownPayout ⟨before, text, []⟩ d ∧ d.group? 1 = some raw := by
  cases h with
  | @intro s₁ s₂ raw s₃ s₄ basis s₅ rest h₁ h₂ hraw h₃ h₄ hbasis h₅ =>
      have hletter : ∀ x ∈ (basis ++ (s₅ ++ ':' :: rest)).head?, isSpace x = false := by
        cases hbasis with
        | cons hx _ =>
            intro x h
            obtain rfl := Option.some.inj h
            exact not_space_of_sameLetter rfl rfl hx
      have hfront : Passes (seqs [lit "+", many space, lit "$", many space])
          ("+".toList ++ (s₁ ++ ("$".toList ++ (s₂ ++ []))))
          (raw ++ (s₃ ++ ("(".toList ++ (s₄ ++ (basis ++ (s₅ ++ (":".toList ++ []))))) ++ rest)) :=
        (passes_lit "+" _).seq ((passes_spaces h₁ (by simp [isSpace])).seq ((passes_lit "$" _).seq
          ((passes_spaces h₂ (by exact hraw.not_space _)).seq (passes_eps _))))
      have hback : Passes
          (seqs [many space, lit "(", many space, ilit "basis", many space, lit ":"])
          (s₃ ++ ("(".toList ++ (s₄ ++ (basis ++ (s₅ ++ (":".toList ++ [])))))) rest :=
        (passes_spaces h₃ (by simp [isSpace])).seq ((passes_lit "(" _).seq
          ((passes_spaces h₄ (by simpa using hletter)).seq ((passes_ilit hbasis _).seq
            ((passes_spaces h₅ (by simp [isSpace])).seq
              ((passes_lit ":" _).seq (passes_eps rest))))))
      exact hfront.capture (passes_token hraw (by simpa using ends_bracket h₃ _)) hback (by simp)

theorem mem_lit {text : String} {word : List Char} :
    word ∈ (lit text).language ↔ word = text.toList := mem_language_lit text.toList word

theorem plainPayout_matches {before text : List Char}
    (h : plainPayout.matchesAt ⟨before, text, []⟩ ≠ []) : ∃ raw, PlainAt text raw := by
  have hanchorless : plainPayout.anchorless = true := rfl
  obtain ⟨word, rest, htext, hword⟩ := (matchesAt_ne_nil hanchorless).mp h
  change text = word ++ rest at htext
  rw [plainPayout, mem_language_seqs_cons] at hword
  simp only [mem_language_seqs_pair, mem_lit, mem_spaces, mem_token] at hword
  obtain ⟨_, rfl, _, ⟨spaces, hspaces, raw, hraw, rfl⟩, rfl⟩ := hword
  obtain ⟨d, tail, rfl, hd⟩ := hraw.head
  -- the token may go on behind what the match reads
  obtain ⟨raw, rest', htoken, hraw, hends⟩ := exists_token hd (tail ++ rest)
  refine ⟨raw, ?_⟩
  rw [htext]
  have hat := PlainAt.intro hspaces hraw hends
  rw [← htoken] at hat
  simpa using hat

theorem breakdownPayout_matches {before text : List Char}
    (h : breakdownPayout.matchesAt ⟨before, text, []⟩ ≠ []) : ∃ raw, PayoutAt text raw := by
  have hanchorless : breakdownPayout.anchorless = true := rfl
  obtain ⟨word, rest, htext, hword⟩ := (matchesAt_ne_nil hanchorless).mp h
  change text = word ++ rest at htext
  simp only [breakdownPayout, mem_language_seqs_cons, mem_language_seqs_nil, mem_lit, mem_spaces,
    mem_token, mem_language_ilit] at hword
  obtain ⟨_, rfl, _, ⟨s₁, h₁, _, ⟨_, rfl, _, ⟨s₂, h₂, _, ⟨raw, hraw, _, ⟨s₃, h₃, _, ⟨_, rfl, _,
    ⟨s₄, h₄, _, ⟨basis, hbasis, _, ⟨s₅, h₅, _, ⟨_, rfl, _, rfl, rfl⟩, rfl⟩, rfl⟩, rfl⟩, rfl⟩, rfl⟩,
    rfl⟩, rfl⟩, rfl⟩, rfl⟩, rfl⟩ := hword
  refine ⟨raw, ?_⟩
  rw [htext]
  have hat := @PayoutAt.intro s₁ s₂ raw s₃ s₄ basis s₅ rest h₁ h₂ hraw h₃ h₄ hbasis h₅
  simpa using hat

theorem plainPayout_capture (text raw : List Char) :
    plainPayout.capture 1 text = some raw ↔ First PlainAt text raw :=
  capture_first (fun before _ _ h => h.prefers before) (fun _ _ => plainPayout_matches) text raw

theorem breakdownPayout_capture (text raw : List Char) :
    breakdownPayout.capture 1 text = some raw ↔ First PayoutAt text raw :=
  capture_first (fun before _ _ h => h.prefers before) (fun _ _ => breakdownPayout_matches) text raw

/-! ### What the parser returns -/

/-- The written amount is the payout of the message: in a breakdown the first one that stands
between a plus sign and `(Basis:`, else the first one of a message with a sale word. -/
inductive Pays (text raw : List Char) : Prop where
  | breakdown (h : Breakdown text) (first : First PayoutAt text raw)
  | sale (h : ¬ Breakdown text) (word : Says saleWords text) (first : First PlainAt text raw)

theorem pays_iff (text raw : List Char) : Pays text raw ↔
    (isBreakdown text = true ∨ saleWord.test text = true) ∧ payoutText text = some raw := by
  rw [payoutText, saleWord_test]
  by_cases h : isBreakdown text = true
  · have hbreakdown := (isBreakdown_iff text).mp h
    rw [if_pos h, breakdownPayout_capture]
    constructor
    · intro hpays
      cases hpays with
      | breakdown _ first => exact ⟨.inl h, first⟩
      | sale hnot _ _ => exact absurd hbreakdown hnot
    · exact fun hfirst => .breakdown hbreakdown hfirst.2
  · have hnot : ¬ Breakdown text := fun hb => h ((isBreakdown_iff text).mpr hb)
    rw [if_neg h, plainPayout_capture]
    constructor
    · intro hpays
      cases hpays with
      | breakdown hb _ => exact absurd hb hnot
      | sale _ word first => exact ⟨.inr word, first⟩
    · rintro ⟨hword, hfirst⟩
      exact .sale hnot (hword.resolve_left h) hfirst

/-- Whole cents come back unchanged. -/
theorem round_cents (n : ℕ) : round ((n : ℚ) / 100 * 100) = n := by
  have hcents : (n : ℚ) / 100 * 100 = (n : ℤ) := by
    push_cast
    ring
  rw [round, hcents, Int.floor_intCast_add]
  norm_num

theorem amount_of_cents (n : ℕ) {v : ℚ} :
    (if 0 < (n : ℚ) / 100 ∧ isSafeInteger (round ((n : ℚ) / 100 * 100)) = true then
        some ((round ((n : ℚ) / 100 * 100) : ℚ) / 100)
      else none) = some v ↔ 0 < n ∧ n ≤ maxSafeInteger ∧ v = n / 100 := by
  have hpos : 0 < (n : ℚ) / 100 ↔ 0 < n := by simp
  have hsafe : isSafeInteger (n : ℤ) = true ↔ n ≤ maxSafeInteger := by simp [isSafeInteger]
  simp only [round_cents, hpos, hsafe]
  by_cases h : 0 < n ∧ n ≤ maxSafeInteger
  · rw [if_pos h]
    simp [h, eq_comm]
  · rw [if_neg h]
    constructor
    · intro h'
      cases h'
    · exact fun h' => absurd ⟨h'.1, h'.2.1⟩ h

theorem guards_iff (breakdown sale payment : Bool) :
    ((!breakdown && !sale) || payment) = true ↔
      ¬ (¬ payment = true ∧ (breakdown = true ∨ sale = true)) := by
  cases breakdown <;> cases sale <;> cases payment <;> decide

/-- What both parsers do before they read the amount. -/
theorem guarded_iff {α : Type*} (text : List Char) (read : List Char → Option α) (a : α) :
    (if (!isBreakdown text && !saleWord.test text) || paymentWord.test text then none
      else (payoutText text).bind read) = some a ↔
      ¬ Says paymentWords text ∧ ∃ raw, Pays text raw ∧ read raw = some a := by
  simp only [← paymentWord_test, pays_iff]
  have hguards := guards_iff (isBreakdown text) (saleWord.test text) (paymentWord.test text)
  by_cases hguard : ¬ paymentWord.test text = true ∧
      (isBreakdown text = true ∨ saleWord.test text = true)
  case neg =>
    rw [if_pos (hguards.mpr hguard)]
    constructor
    · intro h
      cases h
    · rintro ⟨hpayment, raw, ⟨hword, -⟩, -⟩
      exact absurd ⟨hpayment, hword⟩ hguard
  case pos =>
    rw [if_neg fun h => hguards.mp h hguard, Option.bind_eq_some_iff]
    constructor
    · rintro ⟨raw, hraw, hread⟩
      exact ⟨hguard.1, raw, ⟨hguard.2, hraw⟩, hread⟩
    · rintro ⟨-, raw, ⟨-, hraw⟩, hread⟩
      exact ⟨raw, hraw, hread⟩

theorem amount_iff (raw : List Char) (v : ℚ) :
    ((normalize raw).bind fun normalized =>
      if 0 < number normalized ∧ isSafeInteger (round (number normalized * 100)) = true then
        some ((round (number normalized * 100) : ℚ) / 100)
      else none) = some v ↔
      ∃ n, Rendering raw n ∧ 0 < n ∧ n ≤ maxSafeInteger ∧ v = n / 100 := by
  rw [Option.bind_eq_some_iff]
  constructor
  · rintro ⟨normalized, hnormalized, h⟩
    obtain ⟨n, hn⟩ := rendering_of_normalize hnormalized
    obtain ⟨normalized', hnormalized', hvalue⟩ := hn.normalize_eq
    obtain rfl : normalized = normalized' := Option.some.inj (hnormalized.symm.trans hnormalized')
    rw [hvalue, amount_of_cents] at h
    exact ⟨n, hn, h⟩
  · rintro ⟨n, hn, h⟩
    obtain ⟨normalized, hnormalized, hvalue⟩ := hn.normalize_eq
    refine ⟨normalized, hnormalized, ?_⟩
    rw [hvalue, amount_of_cents]
    exact h

theorem parseSellEarning_eq_some_iff (message : String) (v : ℚ) :
    parseSellEarning message = some v ↔
      ¬ Says paymentWords (stripFormatting message.toList) ∧
        ∃ raw, Pays (stripFormatting message.toList) raw ∧
          ∃ n, Rendering raw n ∧ 0 < n ∧ n ≤ maxSafeInteger ∧ v = n / 100 := by
  refine (guarded_iff (stripFormatting message.toList) _ v).trans ?_
  exact and_congr_right fun _ => exists_congr fun raw => and_congr_right fun _ => amount_iff raw v

/-! ### The parser in whole cents -/

theorem wholeCents_iff (raw : List Char) (n : ℕ) :
    (if germanAmount.test raw then some (cents (· == ',') raw)
      else if englishAmount.test raw then some (cents (· == '.') raw)
      else if plainAmount.test raw then some (cents (fun c => c == '.' || c == ',') raw)
      else none) = some n ↔ Rendering raw n := by
  constructor
  · intro h
    split at h
    · obtain ⟨m, hm⟩ := (germanAmount_test raw).mp ‹_›
      rw [hm.cents_eq rfl rfl (by decide), Option.some.injEq] at h
      exact .german (h ▸ hm)
    split at h
    · obtain ⟨m, hm⟩ := (englishAmount_test raw).mp ‹_›
      rw [hm.cents_eq rfl rfl (by decide), Option.some.injEq] at h
      exact .english (h ▸ hm)
    split at h
    · obtain ⟨m, hm⟩ := (plainAmount_test raw).mp ‹_›
      rw [hm.cents_eq, Option.some.injEq] at h
      exact .plain (h ▸ hm)
    · cases h
  · intro h
    cases h with
    | german h => rw [if_pos ((germanAmount_test raw).mpr ⟨n, h⟩), h.cents_eq rfl rfl (by decide)]
    | english h =>
        rw [if_neg h.not_german, if_pos ((englishAmount_test raw).mpr ⟨n, h⟩),
          h.cents_eq rfl rfl (by decide)]
    | plain h =>
        rw [if_neg h.not_german, if_neg h.not_english, if_pos ((plainAmount_test raw).mpr ⟨n, h⟩),
          h.cents_eq]

theorem within_iff {amount : Option ℕ} {n : ℕ} :
    (amount.bind fun amount =>
      if 0 < amount ∧ amount ≤ maxSafeInteger then some amount else none) = some n ↔
      amount = some n ∧ 0 < n ∧ n ≤ maxSafeInteger := by
  cases amount with
  | none => simp
  | some m =>
      by_cases h : 0 < m ∧ m ≤ maxSafeInteger
      · rw [Option.bind_some, if_pos h]
        constructor
        · intro hm
          exact ⟨hm, Option.some.inj hm ▸ h⟩
        · exact fun hm => hm.1
      · rw [Option.bind_some, if_neg h]
        constructor
        · intro hm
          cases hm
        · rintro ⟨hm, hn⟩
          exact absurd (Option.some.inj hm ▸ hn) h

/-- Both parsers read the same amounts, one in whole cents. -/
theorem parseSellEarning_cents (message : String) :
    parseSellEarning message =
      Option.map (fun n : ℕ => (n : ℚ) / 100) (AfkClient.parseSellEarning message) := by
  have hcents : ∀ n, AfkClient.parseSellEarning message = some n ↔
      ¬ Says paymentWords (stripFormatting message.toList) ∧
        ∃ raw, Pays (stripFormatting message.toList) raw ∧
          (Rendering raw n ∧ 0 < n ∧ n ≤ maxSafeInteger) := by
    intro n
    refine (guarded_iff (stripFormatting message.toList) _ n).trans ?_
    refine and_congr_right fun _ => exists_congr fun raw => and_congr_right fun _ => ?_
    rw [← wholeCents_iff raw n, ← within_iff]
    refine iff_of_eq (congrArg (· = some n) ?_)
    by_cases hgerman : germanAmount.test raw = true
    · rw [if_pos hgerman]
      exact if_pos hgerman
    rw [if_neg hgerman]
    refine (if_neg hgerman).trans ?_
    by_cases henglish : englishAmount.test raw = true
    · rw [if_pos henglish]
      exact if_pos henglish
    rw [if_neg henglish]
    refine (if_neg henglish).trans ?_
    by_cases hplain : plainAmount.test raw = true
    · refine (if_pos hplain).trans ?_
      rw [if_pos hplain]
      rfl
    · refine (if_neg hplain).trans ?_
      rw [if_neg hplain]
      rfl
  ext v
  rw [parseSellEarning_eq_some_iff, Option.map_eq_some_iff]
  simp only [hcents]
  constructor
  · rintro ⟨hpayment, raw, hpays, n, hraw, hpos, hsafe, rfl⟩
    exact ⟨n, ⟨hpayment, raw, hpays, hraw, hpos, hsafe⟩, rfl⟩
  · rintro ⟨n, ⟨hpayment, raw, hpays, hraw, hpos, hsafe⟩, rfl⟩
    exact ⟨hpayment, raw, hpays, n, hraw, hpos, hsafe, rfl⟩

theorem parseSellEarning_none {message : String} (h : AfkClient.parseSellEarning message = none) :
    parseSellEarning message = none := by
  rw [parseSellEarning_cents, h]
  rfl

/-! ### Every message -/

theorem payouts_parsed :
    (∀ text message raw n, Coloured text message → ¬ Says paymentWords text → Pays text raw →
      Rendering raw n → 0 < n → n ≤ maxSafeInteger →
        parseSellEarning (.ofList message) = some ((n : ℚ) / 100)) ∧
    (∀ raw, ¬ (germanAmount.test raw = true ∧ englishAmount.test raw = true) ∧
      ¬ (germanAmount.test raw = true ∧ plainAmount.test raw = true) ∧
      ¬ (englishAmount.test raw = true ∧ plainAmount.test raw = true)) ∧
    (∀ message v, parseSellEarning message = some v →
      ∃ raw n, Pays (stripFormatting message.toList) raw ∧ Rendering raw n ∧ 0 < n ∧
        v = n / 100) ∧
    (∀ message v, Breakdown (stripFormatting message.toList) → parseSellEarning message = some v →
      ∃ raw n, First PayoutAt (stripFormatting message.toList) raw ∧ Rendering raw n ∧
        v = n / 100) ∧
    ∀ message, Says paymentWords (stripFormatting message.toList) →
      parseSellEarning message = none := by
  refine ⟨?_, ?_, ?_, ?_, ?_⟩
  · intro text message raw n hcolour hpayment hpays hraw hpos hsafe
    rw [parseSellEarning_eq_some_iff, String.toList_ofList, hcolour.stripFormatting]
    exact ⟨hpayment, raw, hpays, n, hraw, hpos, hsafe, rfl⟩
  · intro raw
    rw [germanAmount_test, englishAmount_test, plainAmount_test]
    refine ⟨?_, ?_, ?_⟩
    · exact fun ⟨⟨n, hn⟩, m, hm⟩ => hn.not_grouped hm
    · exact fun ⟨⟨n, hn⟩, m, hm⟩ => hm.not_grouped rfl hn
    · exact fun ⟨⟨n, hn⟩, m, hm⟩ => hm.not_grouped rfl hn
  · intro message v h
    obtain ⟨-, raw, hpays, n, hraw, hpos, -, hvalue⟩ := (parseSellEarning_eq_some_iff _ v).mp h
    exact ⟨raw, n, hpays, hraw, hpos, hvalue⟩
  · intro message v hbreakdown h
    obtain ⟨-, raw, hpays, n, hraw, -, -, hvalue⟩ := (parseSellEarning_eq_some_iff _ v).mp h
    cases hpays with
    | breakdown _ first => exact ⟨raw, n, first, hraw, hvalue⟩
    | sale hnot _ _ => exact absurd hbreakdown hnot
  · intro message hpayment
    cases h : parseSellEarning message with
    | none => rfl
    | some v => exact absurd hpayment ((parseSellEarning_eq_some_iff _ v).mp h).1

theorem payouts_parsed_german :
    parseSellEarning (.ofList ('§' :: 'a' :: ("+$1.071,5 ".toList ++
      '§' :: '7' :: "(Basis: $630, Bonus: +$441,5 durch 1.7x)".toList))) =
        some (((107150 : ℕ) : ℚ) / 100) := by
  have hfront := @Coloured.refl "+$1.071,5 ".toList (by simp)
  have hback := @Coloured.refl "(Basis: $630, Bonus: +$441,5 durch 1.7x)".toList (by simp)
  have hcolour := hfront.append (.code (d := '7') rfl hback)
  refine payouts_parsed.1 _ _ "1.071,5".toList 107150 (.code rfl hcolour) ?_ ?_ ?_ (by decide)
    (by decide)
  · rw [← paymentWord_test]
    decide +kernel
  · rw [pays_iff]
    decide +kernel
  · rw [← wholeCents_iff]
    decide +kernel

/-- Without a plus sign, or in a breakdown with a sale word, the parser finds no payout. -/
theorem payouts_parsed_elsewhere :
    (¬ ∀ (before raw after : List Char) (n : ℕ),
      Breakdown (before ++ raw ++ " (Basis:".toList ++ after) →
      ¬ Says paymentWords (before ++ raw ++ " (Basis:".toList ++ after) → Rendering raw n →
      0 < n → n ≤ maxSafeInteger →
        parseSellEarning (.ofList (before ++ raw ++ " (Basis:".toList ++ after)) =
          some ((n : ℚ) / 100)) ∧
    ¬ ∀ (message : String) (raw : List Char) (n : ℕ), Says saleWords message.toList →
      First PlainAt message.toList raw → ¬ Says paymentWords message.toList → Rendering raw n →
      0 < n → n ≤ maxSafeInteger → parseSellEarning message = some ((n : ℚ) / 100) := by
  constructor
  · intro h
    have hparse := h "$".toList "500".toList " $400, Bonus: $100)".toList 50000
      ((isBreakdown_iff _).mp (by decide +kernel)) (mt (paymentWord_test _).mpr (by decide +kernel))
      ((wholeCents_iff _ _).mp (by decide +kernel)) (by decide) (by decide)
    rw [parseSellEarning_none (by decide +kernel)] at hparse
    cases hparse
  · intro h
    have hparse := h "Verkauft für $500 (Bonus: 2, Basis: 1)" "500".toList 50000
      ((saleWord_test _).mp (by decide +kernel)) ((plainPayout_capture _ _).mp (by decide +kernel))
      (mt (paymentWord_test _).mpr (by decide +kernel))
      ((wholeCents_iff _ _).mp (by decide +kernel)) (by decide) (by decide)
    rw [parseSellEarning_none (by decide +kernel)] at hparse
    cases hparse

end AfkClient.SellEarnings

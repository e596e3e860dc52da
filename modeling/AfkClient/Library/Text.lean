import AfkClient.Library.Regex

/-! Text operations of the JavaScript standard library, on character lists. Letters
outside ASCII keep their case: no pattern that reads the result can tell them apart. -/

namespace AfkClient.Text

/-- Texts are looked up in lists of texts throughout. -/
instance lawfulBEq_chars : LawfulBEq (List Char) := inferInstance

/-- White space and line terminators. -/
def isSpace (c : Char) : Bool :=
  c ∈ ['\t', '\n', '\x0b', '\x0c', '\r', ' ', '\u00a0', '\u1680', '\u2028', '\u2029', '\u202f',
    '\u205f', '\u3000', '\ufeff'] || ('\u2000' ≤ c && c ≤ '\u200a')

def isLineTerminator (c : Char) : Bool := c ∈ ['\n', '\r', '\u2028', '\u2029']

def trimStart (text : List Char) : List Char := text.dropWhile isSpace

def trim (text : List Char) : List Char := (trimStart (trimStart text).reverse).reverse

/-- Lower case of one character. The Kelvin sign and the dotted capital I are the only
characters outside ASCII whose lower case contains an ASCII letter. -/
def lowerChar (c : Char) : List Char :=
  if c = '\u212a' then ['k'] else if c = '\u0130' then ['i', '\u0307'] else [c.toLower]

def toLowerCase (text : List Char) : List Char := text.flatMap lowerChar

/-- The pattern `\s`. -/
def space : Re := .set isSpace

/-- The pattern `.` where it can be repeated. -/
def dot : Re := .set (! isLineTerminator ·)

/-- The pattern `.` once, without the `u` flag: one UTF-16 unit. -/
def dotUnit : Re := .set fun c => ! isLineTerminator c && c.val < 0x10000

/-- Decimal value of a list of digits. -/
def decimal (digits : List Char) : ℕ := digits.foldl (fun n d => 10 * n + (d.toNat - 48)) 0

/-! ### White space -/

theorem val_of_space {c : Char} (h : isSpace c = true) : c.toNat < 48 ∨ 122 < c.toNat := by
  rw [isSpace, Bool.or_eq_true, decide_eq_true_eq] at h
  rcases h with h | h
  · have hlist : ['\t', '\n', '\x0b', '\x0c', '\r', ' ', '\u00a0', '\u1680', '\u2028', '\u2029',
        '\u202f', '\u205f', '\u3000', '\ufeff'].all
          (fun d => decide (d.toNat < 48 ∨ 122 < d.toNat)) = true := rfl
    exact of_decide_eq_true (List.all_eq_true.mp hlist c h)
  · rw [Bool.and_eq_true, decide_eq_true_eq] at h
    have hlow : '\u2000'.toNat ≤ c.toNat := h.1
    exact .inr (Nat.lt_of_lt_of_le (by decide) hlow)

theorem not_space_of_digit {c : Char} (h : c.isDigit = true) : isSpace c = false := by
  by_contra hspace
  rw [Bool.not_eq_false] at hspace
  rw [Char.isDigit, Bool.and_eq_true, decide_eq_true_eq, decide_eq_true_eq] at h
  have hlow : '0'.toNat ≤ c.toNat := h.1
  have hhigh : c.toNat ≤ '9'.toNat := h.2
  have hval := val_of_space hspace
  simp at hlow hhigh
  omega

theorem toLower_of_space {c : Char} (h : isSpace c = true) : c.toLower = c := by
  have hval := val_of_space h
  unfold Char.toLower
  refine dif_neg fun hupper => ?_
  have hlow : 'A'.toNat ≤ c.toNat := hupper.1
  have hhigh : c.toNat ≤ 'Z'.toNat := hupper.2
  simp at hlow hhigh
  omega

theorem not_space_of_sameLetter {a c : Char} (ha : a.toLower = a) (hspace : isSpace a = false)
    (h : Re.sameLetter a c = true) : isSpace c = false := by
  by_contra hc
  rw [Bool.not_eq_false] at hc
  rw [Re.sameLetter, toLower_of_space hc, ha, beq_iff_eq] at h
  rw [h, hspace] at hc
  cases hc

end AfkClient.Text

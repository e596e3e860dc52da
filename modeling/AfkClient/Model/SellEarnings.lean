import AfkClient.Model.Messages
import Mathlib.Data.Rat.Floor

/-! The payout of a sale as the parser computes it: the amount found in the text is rewritten
to a decimal literal, read as a number and rounded to whole cents. Numbers are exact. -/

namespace AfkClient.SellEarnings

open Re Text

/-- `raw.replace(c, d)` for one character: its first occurrence. -/
def replaceFirst (c d : Char) : List Char → List Char
  | [] => []
  | x :: rest => if x = c then d :: rest else x :: replaceFirst c d rest

/-- `raw.replace(/c/g, "")` for one character. -/
def removeAll (c : Char) (raw : List Char) : List Char := raw.filter (· ≠ c)

def germanAmount : Re := groupedAmount "." ","

def englishAmount : Re := groupedAmount "," "."

def normalizeGerman (raw : List Char) : List Char := replaceFirst ',' '.' (removeAll '.' raw)

def normalizeEnglish (raw : List Char) : List Char := removeAll ',' raw

def normalizePlain (raw : List Char) : List Char := replaceFirst ',' '.' raw

def normalize (raw : List Char) : Option (List Char) :=
  if germanAmount.test raw then some (normalizeGerman raw)
  else if englishAmount.test raw then some (normalizeEnglish raw)
  else if plainAmount.test raw then some (normalizePlain raw)
  else none

/-- `Number(normalized)` of digits with at most one decimal point. -/
def number (normalized : List Char) : ℚ :=
  let decimals := (normalized.dropWhile (· ≠ '.')).drop 1
  decimal (normalized.takeWhile (· ≠ '.')) + decimal decimals / 10 ^ decimals.length

/-- `Math.round`: halves are rounded up. -/
def round (x : ℚ) : ℤ := ⌊x + 1 / 2⌋

def isSafeInteger (n : ℤ) : Bool := n.natAbs ≤ maxSafeInteger

def isBreakdown (text : List Char) : Bool := breakdownBasis.test text && breakdownBonus.test text

/-- The first payout of the text, as it is written. -/
def payoutText (text : List Char) : Option (List Char) :=
  (if isBreakdown text then breakdownPayout else plainPayout).capture 1 text

/-- Parse a confirmed sale's total payout, never its base value or bonus. -/
def parseSellEarning (message : String) : Option ℚ := do
  let text := stripFormatting message.toList
  if (!isBreakdown text && !saleWord.test text) || paymentWord.test text then none
  let raw ← payoutText text
  let normalized ← normalize raw
  let amount := number normalized
  if 0 < amount ∧ isSafeInteger (round (amount * 100)) then some (round (amount * 100) / 100)
  else none

end AfkClient.SellEarnings

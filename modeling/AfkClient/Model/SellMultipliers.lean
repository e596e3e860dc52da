import AfkClient.Library.Json
import AfkClient.Model.Client

/-! The sale multipliers in the tooltips of the menu `/sellmulti`. -/

namespace AfkClient

open Re Text

/-! ### Tooltips -/

/-- `value.replace(/§[0-9a-z]/gi, "")` -/
def removeTooltipCodes : List Char → List Char
  | [] => []
  | [c] => [c]
  | c :: d :: rest =>
      if c = '§' ∧ d.isAlphanum then removeTooltipCodes rest
      else c :: removeTooltipCodes (d :: rest)

/-- Text of a JSON text component; a string may itself be the JSON text of one. -/
def componentText : ℕ → Json → List Char
  | 0, _ => []
  | fuel + 1, .str text =>
      let plain := (removeTooltipCodes text.toList).filter (· ≠ '§')
      if (trim text.toList).head?.any fun c => c == '[' || c == '{' then
        match Json.parse text.toList with
        | some value => componentText fuel value
        | none => plain
      else plain
  | fuel + 1, .arr items => items.flatMap (componentText fuel)
  | fuel + 1, .obj entries =>
      let extra := match Json.property entries "extra" with
        | .null => Json.property entries "rawtext"
        | extra => extra
      componentText fuel (Json.property entries "text") ++ componentText fuel extra
  | _, _ => []

/-- Plain tooltip text may be a legacy-coloured string or JSON text components. -/
def tooltipText (text : String) : List Char := componentText (text.length + 1) (.str text)

/-! ### Amounts -/

structure Amount where
  text : List Char
  rest : List Char

def factorLetters : List Char := ['K', 'M', 'B', 'T']

/-- The class `[a-z]` under the flags `iu`. -/
def isUnitLetter (c : Char) : Bool := c.isAlpha || c == 'ſ' || c == '\u212a'

def amount (input : List Char) : Option Amount := do
  let text := match trim input with
    | '$' :: rest => trimStart rest
    | text => text
  let digits := text.takeWhile fun c => c.isDigit || c == '.' || c == ','
  if !digits.head?.any Char.isDigit || 32 < digits.length then none
  let rest := trimStart (text.drop digits.length)
  let unit := rest.takeWhile isUnitLetter
  if unit ≠ [] ∧ ¬ (unit.length = 1 ∧ unit.all fun c => c.toUpper ∈ factorLetters) then none
  let rest := if unit = [] then rest else trimStart (rest.drop unit.length)
  let rest := match rest with
    | '$' :: rest => rest
    | rest => rest
  some ⟨digits ++ unit.map Char.toUpper, trim rest⟩

def moneyFactor : Char → ℚ
  | 'K' => 1_000
  | 'M' => 1_000_000
  | 'B' => 1_000_000_000
  | 'T' => 1_000_000_000_000
  | _ => 1

/-- `value.split(/[.,]/)` -/
def splitSeparators : List Char → List (List Char)
  | [] => [[]]
  | c :: rest =>
      if c = '.' ∨ c = ',' then [] :: splitSeparators rest
      else
        match splitSeparators rest with
        | [] => [[c]]
        | piece :: pieces => (c :: piece) :: pieces

/-- A number with the given decimals. -/
def decimalValue (whole decimals : List Char) : ℚ :=
  decimal (whole ++ decimals) / 10 ^ decimals.length

/-- The value of an amount; `none` stands for `NaN`. -/
def money (input : List Char) : Option ℚ :=
  let unit := input.getLast?.filter fun c => c.toUpper ∈ factorLetters
  let value := if unit.isSome then input.dropLast else input
  let factor := (unit.map fun c => moneyFactor c.toUpper).getD 1
  let pieces := splitSeparators value
  if !pieces.all fun piece => piece ≠ [] && piece.all Char.isDigit then none
  else if '.' ∈ value ∧ ',' ∈ value then
    let decimals := pieces.getLast?.getD []
    some (decimalValue pieces.dropLast.flatten decimals * factor)
  else
    match pieces with
    | [whole, decimals] =>
        if unit.isNone ∧ decimals.length = 3 then some (decimal (whole ++ decimals))
        else some (decimalValue whole decimals * factor)
    | [whole] => some (decimal whole * factor)
    | _ => if pieces.tail.all (·.length = 3) then some (decimal pieces.flatten * factor) else none

def percentRe : Re :=
  seqs [oneOf [bos, set fun c => !c.isDigit && c ≠ '.' && c ≠ ','],
    group 1 (seq (some1 digit) (opt (seq separator (some1 digit)))), many space, lit "%"]

def percentage (line : List Char) : Option (List Char) := do
  let raw ← percentRe.capture 1 line
  if 10 < raw.length then none
  let pieces := splitSeparators raw
  let value := decimalValue (pieces.head?.getD []) ((pieces.drop 1).flatten)
  if value ≤ 100 then some raw else none

def progressRe : Re :=
  seqs [bos, oneOf [foldLit "fortschritt", foldLit "progress"], many space, opt (lit ":"),
    many space, group 1 (star false dot), lit "/", group 2 (many dot), eos]

/-- `String(Math.floor(Math.min(100, current / target * 100)))` -/
def flooredPercent (current target : ℚ) : List Char :=
  (toString (min 100 (current / target * 100)).floor).toList

/-- The progress a line shows, with the line below it for its percentage. -/
def progressOf (line : List Char) (below : List (List Char)) : Option (List Char) := do
  let found ← progressRe.exec line
  let left ← amount (← found.group? 1)
  if left.rest ≠ [] then none
  let right ← amount (← found.group? 2)
  let current ← money left.text
  let target ← money right.text
  let nextLine := (below.find? (· ≠ [])).getD []
  let percent ←
    ((percentage right.rest).or (percentage nextLine)).or
      (if 0 < target then some (flooredPercent current target) else none)
  some (left.text ++ "$/".toList ++ right.text ++ "$ - ".toList ++ percent ++ ['%'])

def readProgress : List (List Char) → Option (List Char)
  | [] => none
  | line :: below => (progressOf line below).or (readProgress below)

def multiplierRe : Re :=
  seqs [bos, oneOf [seqs [foldLit "aktueller", some1 space, foldLit "multiplikator"],
      seqs [foldLit "current", some1 space, foldLit "multiplier"]],
    many space, opt (lit ":"), many space,
    group 1 (seqs [some1 digit, opt (seq separator (some1 digit)), set (· ∈ ['x', 'X', '×'])]),
    many space, eos]

/-- One entry of the multiplier menu. -/
def readMultiplier (name : String) (lore : List String) : Option SellMultiplier := do
  let displayName :=
    trim ((tooltipText name).map fun c => if c = '\r' ∨ c = '\n' then ' ' else c)
  if displayName = [] ∨ 256 < Client.utf16Length (.ofList displayName) then none
  let lines := lore.map fun line => trim (tooltipText line)
  let multiplier ← lines.findSome? (multiplierRe.capture 1)
  let progress ← readProgress lines
  if multiplier.length ≤ 32 then
    some ⟨.ofList displayName, .ofList multiplier, .ofList progress⟩
  else none

end AfkClient

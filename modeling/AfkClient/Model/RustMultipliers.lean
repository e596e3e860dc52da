import AfkClient.Model.Client
import AfkClient.Model.SellMultipliers

/-! The Rust bot's reader of the tooltips of `/sellmulti`. -/

namespace AfkClient.RustBot

/-! ### Text of the Rust standard library -/

/-- `char::is_whitespace` -/
def isWhitespace (c : Char) : Bool :=
  c ∈ ['\t', '\n', '\x0b', '\x0c', '\r', ' ', '\u0085', '\u00a0', '\u1680', '\u2028', '\u2029',
    '\u202f', '\u205f', '\u3000'] || ('\u2000' ≤ c && c ≤ '\u200a')

def trimStart (text : List Char) : List Char := text.dropWhile isWhitespace

def trimEnd (text : List Char) : List Char := (trimStart text.reverse).reverse

def trim (text : List Char) : List Char := trimEnd (trimStart text)

/-- The words of `split_whitespace`. -/
def splitWhitespace (text : List Char) : List (List Char) :=
  (text.splitOnP isWhitespace).filter (· ≠ [])

def utf8Length (text : List Char) : ℕ := (text.map Char.utf8Size).sum

def isSeparator (c : Char) : Bool := c == '.' || c == ','

/-- `strip_prefix(c).unwrap_or(text)` -/
def stripPrefix (c : Char) : List Char → List Char
  | [] => []
  | d :: rest => if d = c then rest else d :: rest

/-- `parse::<f64>()` of a text of digits and points. -/
def parseFloat (text : List Char) : Option ℚ :=
  match text.splitOn '.' with
  | [whole] => if whole = [] then none else some (decimalValue whole [])
  | [whole, decimals] => if whole = [] ∧ decimals = [] then none else some (decimalValue whole decimals)
  | _ => none

/-! ### Tooltips -/

def plainText : List Char → List Char
  | [] => []
  | [c] => if c = '§' then [] else [c]
  | c :: d :: rest => if c = '§' then plainText rest else c :: plainText (d :: rest)

def labelled (line : List Char) (labels : List String) : Option (List Char) :=
  labels.findSome? fun label =>
    let n := label.length
    if (line.take n).map Char.toLower = label.toList.map Char.toLower then
      some (trim (stripPrefix ':' (trimStart (line.drop n))))
    else none

structure Amount where
  text : List Char
  rest : List Char
  deriving DecidableEq, Repr

def amount (input : List Char) : Option Amount := do
  let input := trimStart (stripPrefix '$' (trimStart input))
  if !input.head?.any Char.isDigit then none
  let number := input.takeWhile fun c => c.isDigit || isSeparator c
  if 32 < number.length then none
  let rest := trimStart (input.drop number.length)
  let unit := (rest.takeWhile Char.isAlpha).map Char.toUpper
  if unit ≠ [] ∧ unit ∉ [['K'], ['M'], ['B'], ['T']] then none
  let rest := trimStart (rest.drop unit.length)
  some ⟨number ++ unit, trim (stripPrefix '$' rest)⟩

def money (input : List Char) : Option ℚ :=
  let unit := input.getLast?.filter fun c => c.toUpper ∈ factorLetters
  let input := if unit.isSome then input.dropLast else input
  let factor := (unit.map fun c => moneyFactor c.toUpper).getD 1
  let pieces := input.splitOnP isSeparator
  if pieces.any fun piece => piece = [] || !piece.all Char.isDigit then none
  else
    let normalized :=
      if '.' ∈ input ∧ ',' ∈ input then
        pieces.dropLast.flatten ++ '.' :: pieces.getLast?.getD []
      else if unit.isSome ∧ pieces.length = 2 then ['.'].intercalate pieces
      else if 1 < pieces.length ∧ pieces.tail.all (·.length = 3) then pieces.flatten
      else input.map fun c => if c = ',' then '.' else c
    (parseFloat normalized).map (· * factor)

/-- The digits and separators in front of the first percent sign. -/
def shownPercent (line : List Char) : List Char :=
  ((trimEnd (line.takeWhile (· ≠ '%'))).reverse.takeWhile fun c =>
    c.isDigit || isSeparator c).reverse

def percentage (line : List Char) : Option (List Char) := do
  if '%' ∉ line then none
  let text := shownPercent line
  if text = [] ∨ 10 < text.length then none
  let value ← parseFloat (text.map fun c => if c = ',' then '.' else c)
  if 0 ≤ value ∧ value ≤ 100 then some text else none

/-- The amounts of a line of progress, their values, and what follows them. -/
structure Progress where
  currentText : List Char
  targetText : List Char
  trailing : List Char
  current : ℚ
  target : ℚ

/-- The checks of `read_progress` on one line. -/
def progressLine (line : List Char) : Option Progress := do
  let value ← labelled line ["Fortschritt", "Progress"]
  if '/' ∉ value then none
  let left ← amount (value.takeWhile (· ≠ '/'))
  if left.rest ≠ [] then none
  let right ← amount ((value.dropWhile (· ≠ '/')).drop 1)
  let current ← money left.text
  let target ← money right.text
  some ⟨left.text, right.text, right.rest, current, target⟩

/-- The first line that is not empty. -/
def followingLine (below : List (List Char)) : List Char := (below.find? (· ≠ [])).getD []

/-- What the menu shows, or what the amounts yield. -/
def Progress.percent (p : Progress) (below : List (List Char)) : Option (List Char) :=
  ((percentage p.trailing).or (percentage (followingLine below))).or
    (if 0 < p.target then some (flooredPercent p.current p.target) else none)

def readProgress : List (List Char) → Option (List Char)
  | [] => none
  | line :: below =>
      match (progressLine line).bind fun p => (p.percent below).map fun percent =>
          p.currentText ++ "$/".toList ++ p.targetText ++ "$ - ".toList ++ percent ++ ['%'] with
      | some progress => some progress
      | none => readProgress below

/-- The multiplier on a line. -/
def readLine (line : List Char) : Option (List Char) := do
  let value ← labelled line ["Aktueller Multiplikator", "Current multiplier"]
  let value := trim value
  if !value.getLast?.any fun c => c ∈ ['x', 'X', '×'] then none
  let pieces := value.dropLast.splitOnP isSeparator
  if 32 < utf8Length value ∨ 2 < pieces.length ∨
      pieces.any fun part => part = [] || !part.all Char.isDigit then none
  some value

/-- The name of an item as the reader takes it. -/
def plainName (name : String) : List Char :=
  trim ((plainText name.toList).map fun c => if c = '\r' ∨ c = '\n' then ' ' else c)

def plainLines (lore : List String) : List (List Char) :=
  lore.map fun line => [' '].intercalate (splitWhitespace (plainText line.toList))

def tooltip (name : String) (lore : List String) : Option SellMultiplier := do
  let displayName := plainName name
  if displayName = [] ∨ 256 < displayName.length then none
  let lines := plainLines lore
  let progress ← readProgress lines
  let multiplier ← lines.findSome? readLine
  some ⟨.ofList displayName, .ofList multiplier, .ofList progress⟩

/-! ### The menu -/

structure ItemStack where
  present : Bool
  customName : Option String
  itemName : Option String
  lore : Option (List String)
  deriving DecidableEq, Repr

def itemTooltip (stack : ItemStack) : String × List String :=
  if stack.present then ((stack.customName.or stack.itemName).getD "", stack.lore.getD [])
  else ("", [])

/-- Never read the bottom row of the menu or the appended player inventory. -/
def readTopRow (slots : List ItemStack) : Option (List SellMultiplier) :=
  if slots.length < 45 ∨ 90 < slots.length ∨ slots.length % 9 ≠ 0 then none
  else (slots.take 9).mapM fun stack => tooltip (itemTooltip stack).1 (itemTooltip stack).2

end AfkClient.RustBot

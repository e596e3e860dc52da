import Mathlib.Algebra.Field.Rat
import Mathlib.Data.List.Basic

/-! JSON values and their texts. -/

namespace AfkClient

inductive Json where
  | null
  | bool (value : Bool)
  | num (value : ℚ)
  | str (value : String)
  | arr (items : List Json)
  | obj (entries : List (String × Json))

namespace Json

/-! ### Equality -/

mutual

/-- Equal values, with the entries of an object in the same order. -/
def beq : Json → Json → Bool
  | .null, .null => true
  | .bool a, .bool b => a = b
  | .num a, .num b => a = b
  | .str a, .str b => a = b
  | .arr as, .arr bs => beqItems as bs
  | .obj as, .obj bs => beqEntries as bs
  | _, _ => false

def beqItems : List Json → List Json → Bool
  | [], [] => true
  | a :: as, b :: bs => beq a b && beqItems as bs
  | _, _ => false

def beqEntries : List (String × Json) → List (String × Json) → Bool
  | [], [] => true
  | (n, a) :: as, (m, b) :: bs => n = m && beq a b && beqEntries as bs
  | _, _ => false

end

mutual

theorem beq_iff (a b : Json) : beq a b = true ↔ a = b := by
  cases a with
  | arr as => cases b <;> simp [beq, beqItems_iff as]
  | obj as => cases b <;> simp [beq, beqEntries_iff as]
  | _ => cases b <;> simp [beq]

theorem beqItems_iff (as bs : List Json) : beqItems as bs = true ↔ as = bs := by
  cases as with
  | nil => cases bs <;> simp [beqItems]
  | cons a as => cases bs <;> simp [beqItems, beq_iff a, beqItems_iff as]

theorem beqEntries_iff (as bs : List (String × Json)) : beqEntries as bs = true ↔ as = bs := by
  cases as with
  | nil => cases bs <;> simp [beqEntries]
  | cons a as =>
      obtain ⟨n, a⟩ := a
      cases bs with
      | nil => simp [beqEntries]
      | cons b bs =>
          obtain ⟨m, b⟩ := b
          simp [beqEntries, beq_iff a, beqEntries_iff as]

end

instance : DecidableEq Json := fun a b => decidable_of_iff _ (beq_iff a b)

/-! ### Texts -/

def skipSpace (text : List Char) : List Char := text.dropWhile (· ∈ [' ', '\t', '\n', '\r'])

/-- The UTF-16 units of a character. -/
def units (c : Char) : List ℕ :=
  let n := c.toNat
  if n < 0x10000 then [n] else [0xd800 + (n - 0x10000) / 0x400, 0xdc00 + (n - 0x10000) % 0x400]

/-- Characters of a list of UTF-16 units; a lone surrogate is replaced. -/
def ofUnits : List ℕ → List Char
  | [] => []
  | [n] => [if 0xd800 ≤ n ∧ n < 0xe000 then '\ufffd' else Char.ofNat n]
  | n :: m :: rest =>
      if 0xd800 ≤ n ∧ n < 0xdc00 ∧ 0xdc00 ≤ m ∧ m < 0xe000 then
        Char.ofNat (0x10000 + 0x400 * (n - 0xd800) + (m - 0xdc00)) :: ofUnits rest
      else
        (if 0xd800 ≤ n ∧ n < 0xe000 then '\ufffd' else Char.ofNat n) :: ofUnits (m :: rest)

def hexValue (c : Char) : Option ℕ :=
  if c.isDigit then some (c.toNat - '0'.toNat)
  else if 'a' ≤ c.toLower && c.toLower ≤ 'f' then some (c.toLower.toNat - 'a'.toNat + 10)
  else none

def escaped : Char → Option Char
  | '"' => some '"'
  | '\\' => some '\\'
  | '/' => some '/'
  | 'b' => some '\x08'
  | 'f' => some '\x0c'
  | 'n' => some '\n'
  | 'r' => some '\r'
  | 't' => some '\t'
  | _ => none

/-- The units of a string behind its opening quote, and the text behind the closing one. -/
def parseUnits : List Char → Option (List ℕ × List Char)
  | [] => none
  | '"' :: rest => some ([], rest)
  | '\\' :: 'u' :: a :: b :: c :: d :: rest => do
      let code := ((← hexValue a) * 16 + (← hexValue b)) * 256 + (← hexValue c) * 16 +
        (← hexValue d)
      let (tail, rest) ← parseUnits rest
      some (code :: tail, rest)
  | '\\' :: c :: rest => do
      let char ← escaped c
      let (tail, rest) ← parseUnits rest
      some (char.toNat :: tail, rest)
  | c :: rest =>
      if c.val < 0x20 ∨ c = '\\' then none
      else (parseUnits rest).map fun (tail, rest) => (units c ++ tail, rest)

def parseString (text : List Char) : Option (String × List Char) :=
  (parseUnits text).map fun (units, rest) => (.ofList (ofUnits units), rest)

def digitsValue (digits : List Char) : ℕ := digits.foldl (fun n d => 10 * n + (d.toNat - 48)) 0

/-- The exponent of a number, if one follows. -/
def parseExponent : List Char → Option (ℤ × List Char)
  | c :: rest =>
      if c = 'e' ∨ c = 'E' then
        let (sign, rest) : ℤ × List Char := match rest with
          | '-' :: rest => (-1, rest)
          | '+' :: rest => (1, rest)
          | rest => (1, rest)
        let digits := rest.takeWhile Char.isDigit
        if digits.isEmpty then none
        else some (sign * digitsValue digits, rest.drop digits.length)
      else some (0, c :: rest)
  | [] => some (0, [])

def parseNumber (text : List Char) : Option (ℚ × List Char) := do
  let (sign, text) : ℚ × List Char := match text with
    | '-' :: rest => (-1, rest)
    | text => (1, text)
  let whole := text.takeWhile Char.isDigit
  if whole.isEmpty || (whole.head? == some '0' && whole.length ≠ 1) then none
  let text := text.drop whole.length
  let decimals := match text with
    | '.' :: rest => rest.takeWhile Char.isDigit
    | _ => []
  let text ← match text with
    | '.' :: rest => if decimals.isEmpty then none else some (rest.drop decimals.length)
    | text => some text
  let (exponent, text) ← parseExponent text
  let mantissa : ℚ := digitsValue (whole ++ decimals)
  some (sign * mantissa * (10 : ℚ) ^ (exponent - decimals.length), text)

mutual

/-- The value a text begins with; `fuel` bounds the nesting. -/
def parseValue : ℕ → List Char → Option (Json × List Char)
  | 0, _ => none
  | fuel + 1, text =>
      match skipSpace text with
      | '"' :: rest => (parseString rest).map fun (value, rest) => (.str value, rest)
      | '[' :: rest =>
          match skipSpace rest with
          | ']' :: rest => some (.arr [], rest)
          | rest => (parseItems fuel rest).map fun (items, rest) => (.arr items, rest)
      | '{' :: rest =>
          match skipSpace rest with
          | '}' :: rest => some (.obj [], rest)
          | rest => (parseEntries fuel rest).map fun (entries, rest) => (.obj entries, rest)
      | 't' :: 'r' :: 'u' :: 'e' :: rest => some (.bool true, rest)
      | 'f' :: 'a' :: 'l' :: 's' :: 'e' :: rest => some (.bool false, rest)
      | 'n' :: 'u' :: 'l' :: 'l' :: rest => some (.null, rest)
      | rest => (parseNumber rest).map fun (value, rest) => (.num value, rest)

def parseItems : ℕ → List Char → Option (List Json × List Char)
  | 0, _ => none
  | fuel + 1, text => do
      let (item, rest) ← parseValue fuel text
      match skipSpace rest with
      | ',' :: rest => (parseItems fuel rest).map fun (items, rest) => (item :: items, rest)
      | ']' :: rest => some ([item], rest)
      | _ => none

def parseEntries : ℕ → List Char → Option (List (String × Json) × List Char)
  | 0, _ => none
  | fuel + 1, text =>
      match skipSpace text with
      | '"' :: rest => do
          let (key, rest) ← parseString rest
          match skipSpace rest with
          | ':' :: rest => do
              let (value, rest) ← parseValue fuel rest
              match skipSpace rest with
              | ',' :: rest =>
                  (parseEntries fuel rest).map fun (entries, rest) =>
                    ((key, value) :: entries, rest)
              | '}' :: rest => some ([(key, value)], rest)
              | _ => none
          | _ => none
      | _ => none

end

/-- `JSON.parse` -/
def parse (text : List Char) : Option Json := do
  let (value, rest) ← parseValue (2 * text.length + 1) text
  if (skipSpace rest).isEmpty then some value else none

/-- A property of an object; of two properties of one name the later counts. -/
def property (entries : List (String × Json)) (name : String) : Json :=
  (entries.reverse.lookup name).getD .null

/-- A property, `none` if it is undefined. -/
def find (entries : List (String × Json)) (name : String) : Option Json :=
    entries.reverse.lookup name

end Json

end AfkClient

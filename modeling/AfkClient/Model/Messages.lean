import AfkClient.Library.Text
import Mathlib.Algebra.Ring.Nat
import Mathlib.Data.Int.Notation

/-! The texts the supervisor reads: chat formatting, sale payouts, world-restart
announcements, the proxy's fallback notice and slash commands. -/

namespace AfkClient

open Re Text

/-! ### Formatting codes -/

/-- The class `[0-9a-u]`, letter case ignored. -/
def isFormatCode (c : Char) : Bool := c.isDigit || ('a' ≤ c.toLower && c.toLower ≤ 'u')

/-- `text.replace(/§[0-9a-u]/gi, "")` -/
def removeFormatCodes : List Char → List Char
  | [] => []
  | [c] => [c]
  | c :: d :: rest =>
      if c = '§' ∧ isFormatCode d then removeFormatCodes rest
      else c :: removeFormatCodes (d :: rest)

def stripFormatting (text : List Char) : List Char := (removeFormatCodes text).filter (· ≠ '§')

def stripMinecraftFormatting (text : String) : String := .ofList (stripFormatting text.toList)

/-! ### Sale payouts -/

def breakdownBasis : Re := seqs [boundary, ilit "basis", many space, lit ":"]

def breakdownBonus : Re := seqs [boundary, ilit "bonus", many space, lit ":"]

def saleWord : Re :=
  seqs [boundary, oneOf (["sold", "sale", "selling", "verkauft", "verkauf"].map ilit), boundary]

def paymentWord : Re :=
  seqs [boundary, oneOf (["pay", "paid", "bezahlt", "received", "erhalten von"].map ilit), boundary]

def separator : Re := set fun c => c == '.' || c == ','

/-- `([0-9]+(?:[.,][0-9]+)*)` -/
def payoutAmount : Re := group 1 (seq (some1 digit) (many (seq separator (some1 digit))))

def breakdownPayout : Re :=
  seqs [lit "+", many space, lit "$", many space, payoutAmount, many space, lit "(",
    many space, ilit "basis", many space, lit ":"]

def plainPayout : Re := seqs [lit "$", many space, payoutAmount]

/-- `^\d{1,3}(?:\.\d{3})+(?:,\d{1,2})?$` with the given group and decimal separators. -/
def groupedAmount (thousands fraction : String) : Re :=
  seqs [bos, times 1 2 digit, some1 (seq (lit thousands) (times 3 0 digit)),
    opt (seq (lit fraction) (times 1 1 digit)), eos]

def plainAmount : Re := seqs [bos, some1 digit, opt (seq separator (times 1 1 digit)), eos]

/-- Hundredths of a number written with at most two decimals after `fraction`; every
other character that is not a digit is a thousands separator. -/
def cents (fraction : Char → Bool) (raw : List Char) : ℕ :=
  let whole := raw.takeWhile (! fraction ·)
  let decimals := (raw.dropWhile (! fraction ·)).filter Char.isDigit
  100 * decimal (whole.filter Char.isDigit) + decimal ((decimals ++ ['0', '0']).take 2)

def maxSafeInteger : ℕ := 2 ^ 53 - 1

/-- The payout of a confirmed sale in cents. -/
def parseSellEarning (message : String) : Option ℕ := do
  let text := stripFormatting message.toList
  let breakdown := breakdownBasis.test text && breakdownBonus.test text
  if (!breakdown && !saleWord.test text) || paymentWord.test text then none
  let raw ← (if breakdown then breakdownPayout else plainPayout).capture 1 text
  let amount ←
    if (groupedAmount "." ",").test raw then some (cents (· == ',') raw)
    else if (groupedAmount "," ".").test raw then some (cents (· == '.') raw)
    else if plainAmount.test raw then some (cents (fun c => c == '.' || c == ',') raw)
    else none
  if 0 < amount ∧ amount ≤ maxSafeInteger then some amount else none

/-! ### World restarts -/

def worldWord : Re :=
  seqs [boundary, oneOf [seqs [many word, lit "welt", many word], seq (lit "world") (many word)],
    boundary]

def restartWord : Re :=
  oneOf [lit "neustart", lit "restart", seqs [lit "neu", many space, lit "gestartet"],
    seqs [lit "start", many word, boundary, many dot, boundary, lit "neu", boundary]]

def restartUnit : Re :=
  oneOf [seq (lit "sekunde") (opt (lit "n")), seq (lit "sek") (opt (lit ".")),
    seq (lit "second") (opt (lit "s")), seq (lit "sec") (opt (lit "s")), lit "s",
    seq (lit "minute") (opt (lit "n")), seq (lit "min") (opt (lit ".")),
    seq (lit "minute") (opt (lit "s")), seq (lit "min") (opt (lit "s")), lit "m"]

def restartCountdown : Re :=
  seqs [boundary, lit "in", some1 space, group 1 (some1 digit), many space, group 2 restartUnit,
    boundary]

/-- Remaining seconds announced for a world restart. -/
def parseWorldRestartSeconds (message : String) : Option ℕ := do
  let text := toLowerCase (removeFormatCodes message.toList)
  if !worldWord.test text then none
  if !restartWord.test text then none
  let countdown ← restartCountdown.exec text
  let count ← countdown.group? 1
  let unit ← countdown.group? 2
  let seconds := decimal count * if unit.head? == some 'm' then 60 else 1
  if seconds ≤ 24 * 60 * 60 then some seconds else none

def WORLD_RESTART_SELL_LEAD_MS : ℤ := 10_000

def WORLD_RESTART_SELL_COOLDOWN_MS : ℤ := 2 * 60_000

/-! ### Server fallback -/

/-- `text.replace(/\s+/g, " ")` -/
def collapseSpace : List Char → List Char
  | [] => []
  | c :: rest =>
      if isSpace c then
        match rest with
        | d :: _ => if isSpace d then collapseSpace rest else ' ' :: collapseSpace rest
        | [] => [' ']
      else c :: collapseSpace rest

/-- Literal text under the flags `iu`: the long s and the Kelvin sign fold to ASCII. -/
def foldLit (text : String) : Re :=
  let fold (c : Char) : Char := if c = 'ſ' then 's' else if c = '\u212a' then 'k' else c.toLower
  seqs (text.toList.map fun c => set fun d => fold d == fold c)

def serverFallback : Re :=
  seqs [bos, foldLit "verbindung zum vorherigen server verloren", many space,
    set (· ∈ ['–', '—', '-']), many space,
    foldLit "du wurdest auf einen anderen server verschoben", opt (set (· ∈ ['.', '!'])), eos]

def isServerFallbackMessage (message : String) : Bool :=
  serverFallback.test (collapseSpace (trim message.toList))

/-! ### Slash commands -/

def isControl (c : Char) : Bool := c.val < 0x20 || (0x7f ≤ c.val && c.val < 0xa0)

/-- One Minecraft command per message; plain chat and control characters are rejected. -/
def isSlashCommand (text : String) : Bool :=
  match text.toList with
  | '/' :: c :: rest => ! isSpace c && ! isControl c && rest.all (! isControl ·)
  | _ => false

def AFK_BLOCK_MESSAGE : String :=
  "Mit den Accounts über den AFK-Client ist es nicht erlaubt, Stars zu farmen!!"

def blockedAfkCommand : Re :=
  seqs [bos, lit "/",
    opt (seq (some1 (set fun c => c.isAlphanum || c ∈ ['_', '.', '-'])) (lit ":")),
    ilit "afk", oneOf [space, eos]]

def isBlockedAfkCommand (text : String) : Bool := blockedAfkCommand.test (trim text.toList)

end AfkClient

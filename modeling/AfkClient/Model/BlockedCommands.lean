import AfkClient.Model.NativeAutoSell
import AfkClient.Model.Session

/-! The guards of the native client against a forbidden command, and the paths on which a text
of a user or of the settings reaches its connection. -/

namespace AfkClient.BlockedCommands

open Re Text
open Native (javaTrim javaSpace isJavaDot afkCommand)

inductive Packet where
  | command (text : List Char)
  | chat (text : List Char)
  deriving DecidableEq, Repr

/-- The class `[a-z0-9_.-]`, letter case ignored. -/
def isNamespaceChar (c : Char) : Bool := c.isAlphanum || c ∈ ['_', '.', '-']

def blocked (text : List Char) : Bool :=
  (seqs [bos, opt (lit "/"), opt (seq (some1 (set isNamespaceChar)) (lit ":")), ilit "afk",
    opt (seq javaSpace (many (set isJavaDot))), eos]).test (javaTrim text)

/-- What the connection sends; the guard at the head of the method may cancel it. -/
def sendCommand (command : List Char) : List Packet :=
  if blocked command then [] else [.command command]

def sendChat (message : List Char) : List Packet :=
  if message.head? = some '/' ∧ blocked message = true then [] else [.chat message]

/-- A command of a user: without its slash it goes to `sendCommand`. -/
def sendSlashCommand (text : List Char) : List Packet :=
  match text with
  | '/' :: command => sendCommand command
  | _ => []

/-- The command of a sale, from the settings of the account to the connection. -/
def sendSale (config : BehaviorConfig) : List Packet :=
  let command := javaTrim config.sellConfig.command.toList
  if command = [] || afkCommand command then []
  else match command with
    | '/' :: rest => sendCommand rest
    | command => sendChat command

end AfkClient.BlockedCommands

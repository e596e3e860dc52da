import AfkClient.Library.Dictionary
import AfkClient.Library.Stringify
import AfkClient.Model.ConsoleLogs

/-! The lines of a console in the browser: the history that the server has stored, merged with the
lines that came in live. -/

namespace AfkClient.ConsoleBuffer

open ConsoleLogs (ConsoleLogType)

def MAX_CONSOLE_LOGS : ℕ := 20000

/-- The time is an ISO timestamp, so that `localeCompare` is the order of the strings. -/
structure ConsoleLogEntry where
  id : String
  minecraftAccountId : String
  type : ConsoleLogType
  message : String
  createdAt : String
  deriving DecidableEq, Repr

def text : ConsoleLogType → String
  | .SYSTEM => "SYSTEM"
  | .CHAT => "CHAT"
  | .SERVER_MESSAGE => "SERVER_MESSAGE"
  | .USER_COMMAND => "USER_COMMAND"
  | .ERROR => "ERROR"
  | .WARNING => "WARNING"

/-- `JSON.stringify([line.createdAt, line.type, line.message])` -/
def key (line : ConsoleLogEntry) : List Char :=
  Json.array [Json.quote line.createdAt, Json.quote (text line.type), Json.quote line.message]

abbrev Remaining := Dictionary (List Char) ℕ

def Remaining.count (remaining : Remaining) (k : List Char) : ℕ := (remaining.get? k).getD 0

/-- How often each line occurs in the history. -/
def remaining (history : List ConsoleLogEntry) : Remaining :=
  history.foldl (fun remaining line =>
    remaining.set (key line) (Remaining.count remaining (key line) + 1)) .empty

/-- The live lines that the history does not account for. -/
def extra : Remaining → List ConsoleLogEntry → List ConsoleLogEntry
  | _, [] => []
  | remaining, line :: live =>
      if Remaining.count remaining (key line) = 0 then line :: extra remaining live
      else extra (remaining.set (key line) (Remaining.count remaining (key line) - 1)) live

/-- All lines, before the oldest of them are dropped. -/
def merged (history live : List ConsoleLogEntry) : List ConsoleLogEntry :=
  (history ++ extra (remaining history) live).mergeSort fun a b => decide (a.createdAt ≤ b.createdAt)

def mergeConsoleHistory (history live : List ConsoleLogEntry) : List ConsoleLogEntry :=
  (merged history live).drop ((merged history live).length - MAX_CONSOLE_LOGS)

end AfkClient.ConsoleBuffer

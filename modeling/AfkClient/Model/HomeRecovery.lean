import AfkClient.Model.Behaviors

/-! The one-time import of a confirmed home from the rows of a console log. -/

namespace AfkClient

open Re Text

/-- A row of the console log, with the time it was written. -/
structure HistoryRow where
  type : ConsoleEventType
  message : String
  createdAt : ℤ
  deriving DecidableEq, Repr

structure RequestedHome where
  home : String
  requestedAt : ℤ
  deriving DecidableEq, Repr

/-- `text.replace(/§./g, "")`; of a character of two UTF-16 units one unit is left. -/
def removeCodes : List Char → List Char
  | [] => []
  | [c] => [c]
  | c :: d :: rest =>
      if c = '§' ∧ ¬ isLineTerminator d then
        if d.val < 0x10000 then removeCodes rest else '\ufffd' :: removeCodes rest
      else c :: removeCodes (d :: rest)

namespace HomeRecovery

def connectionRe : Re :=
  seqs [bos, lit "Starte Minecraft-Verbindung zu ", group 1 (some1 dot), lit "…", eos]

/-- The endpoint of a row that reports a connection. -/
def connection (row : HistoryRow) : Option String :=
  if row.type = .system then (connectionRe.capture 1 row.message.toList).map String.ofList else none

/-- The line with which the server confirms a home. -/
def confirmation (home : String) : String :=
  s!"[HugoSMP] Du wurdest zu deinem Home {home} teleportiert!"

structure History where
  endpoint : String := ""
  home : String := ""
  pending : Option RequestedHome := none
  deriving DecidableEq, Repr

def History.connected (h : History) (address endpoint : String) : History :=
  { endpoint := endpoint, pending := none, home := if endpoint ≠ address then "" else h.home }

def History.command (letterOrNumber : Char → Bool) (h : History) (row : HistoryRow) : History :=
  match (Behaviors.requestedHome row.message).filter (validHome letterOrNumber) with
  | some requested => { h with pending := some ⟨requested, row.createdAt⟩ }
  | none => if Behaviors.isNavigation row.message then { h with home := "", pending := none } else h

def History.message (h : History) (row : HistoryRow) : History :=
  match h.pending with
  | some pending =>
      if row.createdAt - pending.requestedAt ≤ 120_000
          ∧ trim (removeCodes row.message.toList) = (confirmation pending.home).toList then
        { h with home := pending.home, pending := none }
      else h
  | none => h

def History.row (letterOrNumber : Char → Bool) (address : String) (h : History) (row : HistoryRow) :
    History :=
  let h := match connection row with
    | some endpoint => h.connected address endpoint
    | none => h
  if h.endpoint ≠ address then h
  else
    match row.type with
    | .userCommand => h.command letterOrNumber row
    | .serverMessage => h.message row
    | _ => h

/-- `host.includes(":") ? "[host]" : host`, and the port -/
def address (host : String) (port : ℕ) : String :=
  if ':' ∈ host.toList then s!"[{host}]:{port}" else s!"{host}:{port}"

def homeFromHistory (letterOrNumber : Char → Bool) (rows : List HistoryRow) (host : String)
    (port : ℕ) : String :=
  (rows.foldl (History.row letterOrNumber (address host port)) {}).home

end HomeRecovery

end AfkClient

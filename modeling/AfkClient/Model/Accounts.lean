import AfkClient.Model.ClientManager
import AfkClient.Model.Users

/-! The requests that create, edit and delete accounts. A request runs from one database
query to the next; where a query's result has an effect on the registry, its arrival is
a step of its own. -/

namespace AfkClient

structure CreateAccountInput where
  name : String
  minecraftVersion : String := ""
  serverHost : String
  serverPort : ℕ := 25565
  edition : String := "JAVA"
  credentialsSecret : String
  crouchEnabled : Bool := false
  autoButton : AutoButton := .off
  autoReconnect : Bool := true
  autoReturnHome : Bool := true
  autoSellEnabled : Bool := false
  autoSellIntervalSeconds : ℚ := 60
  autoSellCommand : String := "/sell"
  spawnerType : String := ""
  spawnerActions : List (String × SpawnerAction) := []

structure UpdateAccountInput where
  name : Option String := none
  minecraftVersion : Option String := none
  serverHost : Option String := none
  serverPort : Option ℕ := none
  crouchEnabled : Option Bool := none
  autoButton : Option AutoButton := none
  autoReconnect : Option Bool := none
  autoReturnHome : Option Bool := none
  autoSellEnabled : Option Bool := none
  autoSellIntervalSeconds : Option ℚ := none
  autoSellCommand : Option String := none
  spawnerType : Option String := none
  spawnerActions : Option (List (String × SpawnerAction)) := none

def SpawnerAction.text : SpawnerAction → String
  | .keep => "keep"
  | .drop => "drop"
  | .sell => "sell"

/-- What the column gives back of `JSON.stringify(actions)`. -/
def spawnerActionsJson (actions : List (String × SpawnerAction)) : Json :=
  .obj (actions.map fun (item, action) => (item, .str action.text))

def CreateAccountInput.account (input : CreateAccountInput) (id : String) : MinecraftAccount where
  id := id
  name := String.ofList (Text.trim input.name.toList)
  minecraftVersion := input.minecraftVersion
  serverHost := input.serverHost
  serverPort := input.serverPort
  edition := input.edition
  authType := .microsoft
  credentialsSecret := some input.credentialsSecret
  credentialsPassword := none
  crouchEnabled := input.crouchEnabled
  autoButton := input.autoButton
  autoReconnect := input.autoReconnect
  autoReturnHome := input.autoReturnHome
  autoSellEnabled := input.autoSellEnabled
  autoSellIntervalSeconds := input.autoSellIntervalSeconds
  autoSellCommand := input.autoSellCommand
  spawnerType := input.spawnerType
  spawnerActions := some (spawnerActionsJson input.spawnerActions)

def UpdateAccountInput.apply (input : UpdateAccountInput) (account : MinecraftAccount) :
    MinecraftAccount :=
  { account with
    name := input.name.getD account.name
    minecraftVersion := input.minecraftVersion.getD account.minecraftVersion
    serverHost := input.serverHost.getD account.serverHost
    serverPort := input.serverPort.getD account.serverPort
    crouchEnabled := input.crouchEnabled.getD account.crouchEnabled
    autoButton := input.autoButton.getD account.autoButton
    autoReconnect := input.autoReconnect.getD account.autoReconnect
    autoReturnHome := input.autoReturnHome.getD account.autoReturnHome
    autoSellEnabled := input.autoSellEnabled.getD account.autoSellEnabled
    autoSellIntervalSeconds := input.autoSellIntervalSeconds.getD account.autoSellIntervalSeconds
    autoSellCommand := input.autoSellCommand.getD account.autoSellCommand
    spawnerType := input.spawnerType.getD account.spawnerType
    spawnerActions := (input.spawnerActions.map spawnerActionsJson).orElse fun _ =>
      account.spawnerActions }

namespace Accounts

/-- The user a request is made by. -/
structure Session where
  userId : String
  role : Role
  deriving DecidableEq, Repr

inductive Request where
  | create (input : CreateAccountInput)
  | update (id : String) (input : UpdateAccountInput)
  | delete (id : String)

/-- Where a request stands: at a query that has not run, or at a result that arrives. -/
inductive Frame where
  | create (session : Session) (input : CreateAccountInput)
  | setAssignments (session : Session) (id : String)
  | getCreated (session : Session) (id : String)
  | readCreated (id : String)
  | registerCreated (id : String) (full : Option MinecraftAccount)
  | updateAccess (session : Session) (id : String) (input : UpdateAccountInput)
  | update (id : String) (input : UpdateAccountInput)
  | readUpdated (id : String) (input : UpdateAccountInput)
  | registerUpdated (id : String) (input : UpdateAccountInput) (full : Option MinecraftAccount)
  | deleteAccess (session : Session) (id : String)
  | unregister (id : String)
  | delete (id : String)

inductive Reply where
  | created (id : String)
  | updated (id : String)
  | deleted
  /-- The handler returned without a reply. -/
  | unanswered
  | error (code : ℕ) (message : String)
  /-- The handler threw. -/
  | thrown
  deriving DecidableEq, Repr

structure Pending where
  request : ℕ
  frame : Frame
  /-- Which read of the account table it holds, if it holds one. -/
  read : ℕ := 0

structure Server where
  manager : ClientManager
  /-- The users assigned to accounts. -/
  assignments : List (String × String) := []
  /-- Ids that accounts have or a request named; a new account gets none of them. -/
  usedIds : List String
  pending : Table Pending.request := Table.empty
  replies : List (ℕ × Reply) := []
  /-- Number of reads of an account by the handlers. -/
  reads : ℕ := 0
  /-- The reads registered, latest first, and the accounts unregistered by a request. -/
  registrations : List (String × ℕ) := []
  unregistered : List String := []

/-- The account a request names. -/
def Request.ids : Request → List String
  | .create _ => []
  | .update id _ | .delete id => [id]

def Request.begin (session : Session) : Request → Frame
  | .create input => .create session input
  | .update id input => .updateAccess session id input
  | .delete id => .deleteAccess session id

namespace Server

def canAccessAccount (s : Server) (session : Session) (id : String) : Bool :=
  session.role == .admin || s.assignments.contains (session.userId, id)

def accounts (s : Server) : Table MinecraftAccount.id := s.manager.accounts

/-- Whether the name is free for the account of the id. -/
def nameFree (s : Server) (id name : String) : Bool :=
  s.accounts.rows.all fun account => account.name ≠ name || account.id == id

def setAccounts (s : Server) (accounts : Table MinecraftAccount.id) : Server :=
  { s with manager := { s.manager with accounts := accounts } }

def accountNotFound : Reply := .error 404 "Account not found"

/-- The result of `getFullAccount` is registered, if there is one. -/
def register (s : Server) (read : ℕ) (full : Option MinecraftAccount) : Server :=
  { s with
    manager := full.elim s.manager s.manager.register
    registrations := (full.map fun account => (account.id, read)).toList ++ s.registrations }

/-- A changed version restarts a client that is not offline. -/
def restartForVersion (s : Server) (id : String) (input : UpdateAccountInput) : Server :=
  { s with
    manager :=
      if input.minecraftVersion.isSome && (s.manager.client? id).any (·.status != .offline) then
        (s.manager.restart id).1
      else s.manager }

/-- The next step of a request at its frame; `newId` is the id a created account gets. -/
def advance (s : Server) (newId : String) (read : ℕ) : Frame → Server × (Frame ⊕ Reply)
  | .create session input =>
      let account := input.account newId
      if newId ∈ s.usedIds then (s, .inl (.create session input))
      else if !s.nameFree newId account.name then
        (s, .inr (.error 409 "Account name already exists"))
      else
        ({ s.setAccounts (s.accounts.insert account) with usedIds := newId :: s.usedIds },
          .inl (if session.role = .admin then .readCreated newId else .setAssignments session newId))
  | .setAssignments session id =>
      if (s.accounts.find? id).isSome then
        ({ s with
            assignments := (session.userId, id) :: s.assignments.filter (·.2 ≠ id) },
          .inl (.getCreated session id))
      else (s, .inr .thrown)
  | .getCreated session id =>
      if (s.accounts.find? id).isSome && s.canAccessAccount session id then
        (s, .inl (.readCreated id))
      else (s, .inr .unanswered)
  | .readCreated id =>
      ({ s with reads := s.reads + 1 }, .inl (.registerCreated id (s.accounts.find? id)))
  | .registerCreated id full => (s.register read full, .inr (.created id))
  | .updateAccess session id input =>
      if s.canAccessAccount session id then (s, .inl (.update id input))
      else (s, .inr accountNotFound)
  | .update id input =>
      match s.accounts.find? id with
      | none => (s, .inr accountNotFound)
      | some account =>
          if s.nameFree id (input.apply account).name then
            (s.setAccounts (s.accounts.update id input.apply fun _ => rfl),
              .inl (.readUpdated id input))
          else (s, .inr accountNotFound)
  | .readUpdated id input =>
      ({ s with reads := s.reads + 1 }, .inl (.registerUpdated id input (s.accounts.find? id)))
  | .registerUpdated id input full =>
      ((s.register read full).restartForVersion id input, .inr (.updated id))
  | .deleteAccess session id =>
      if s.canAccessAccount session id then (s, .inl (.unregister id))
      else (s, .inr accountNotFound)
  | .unregister id =>
      ({ s with manager := s.manager.unregister id, unregistered := id :: s.unregistered },
        .inl (.delete id))
  | .delete id =>
      ({ s.setAccounts (s.accounts.delete id) with
          assignments := s.assignments.filter (·.2 ≠ id) }, .inr .deleted)

inductive Input where
  /-- A request arrives; a number in flight is not used again. -/
  | request (number : ℕ) (session : Session) (request : Request)
  /-- A request takes its next step; `newId` is the id of an account it creates. -/
  | advance (number : ℕ) (newId : String)
  /-- Anything else the manager does. -/
  | manager (input : ClientManager.Input)

def step (s : Server) : Input → Server
  | .request number session request =>
      { s with
        pending := s.pending.insert { request := number, frame := request.begin session }
        usedIds := request.ids ++ s.usedIds }
  | .advance number newId =>
      match s.pending.find? number with
      | none => s
      | some p =>
          match s.advance newId p.read p.frame with
          | (t, .inl frame) =>
              { t with
                pending := t.pending.update number
                  (fun p => { p with frame := frame, read := t.reads }) fun _ => rfl }
          | (t, .inr reply) =>
              { t with
                pending := t.pending.delete number, replies := (number, reply) :: t.replies }
  | .manager input => { s with manager := s.manager.step input }

end Server

end Accounts

end AfkClient

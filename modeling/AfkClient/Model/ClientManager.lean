import AfkClient.Library.Json
import AfkClient.Library.Run
import AfkClient.Library.Table
import AfkClient.Model.Client

/-! The registry of clients, one per account, and the intent to run that it persists.
Its database writes are not awaited, so any of those in flight may be applied next. -/

namespace AfkClient

/-! ### Spawners -/

inductive SpawnerAction where
  | keep | drop | sell
  deriving DecidableEq, Repr

structure SpawnerType where
  id : String
  items : List String
  deriving DecidableEq, Repr

def SPAWNER_TYPES : List SpawnerType := [
  ⟨"cow", ["minecraft:beef"]⟩,
  ⟨"iron_golem", ["minecraft:iron_ingot"]⟩,
  ⟨"spider", ["minecraft:string", "minecraft:spider_eye"]⟩,
  ⟨"zombified_piglin", ["minecraft:gold_nugget", "minecraft:rotten_flesh"]⟩,
  ⟨"skeleton", ["minecraft:bone", "minecraft:arrow"]⟩,
  ⟨"creeper", ["minecraft:gunpowder"]⟩,
  ⟨"blaze", ["minecraft:blaze_powder"]⟩]

def getSpawnerType (id : String) : Option SpawnerType := SPAWNER_TYPES.find? (·.id = id)

/-- The items to drop and the items to sell, of those the spawner makes. -/
def resolveSpawnerActions (spawnerType : String) (actions : List (String × SpawnerAction)) :
    List String × List String :=
  match getSpawnerType spawnerType with
  | none => ([], [])
  | some type =>
      (type.items.filter (actions.lookup · = some .drop),
        type.items.filter (actions.lookup · = some .sell))

def parseSpawnerAction : Json → Option SpawnerAction
  | .str "drop" => some .drop
  | .str "sell" => some .sell
  | .str "keep" => some .keep
  | _ => none

/-- `raw` is what `JSON.parse` makes of the column, if it is JSON. -/
def parseSpawnerActions (raw : Option Json) : List (String × SpawnerAction) :=
  match raw with
  | some (.obj entries) =>
      entries.filterMap fun (key, action) => (parseSpawnerAction action).map (key, ·)
  | _ => []

/-! ### Accounts -/

/-- A row of the account table; its spawner actions are the JSON of their column. -/
structure MinecraftAccount where
  id : String
  name : String
  minecraftVersion : String := ""
  serverHost : String
  serverPort : ℕ := 25565
  edition : String := "JAVA"
  authType : AuthType := .microsoft
  credentialsSecret : Option String := none
  credentialsPassword : Option String := none
  crouchEnabled : Bool := false
  autoButton : AutoButton := .off
  autoReconnect : Bool := true
  autoReturnHome : Bool := true
  autoSellEnabled : Bool := false
  autoSellIntervalSeconds : ℚ := 60
  autoSellCommand : String := "/sell"
  spawnerType : String := ""
  spawnerActions : Option Json := some (.obj [])
  /-- The intent to run, resumed when the server starts. -/
  autoStart : Bool := false

def toRuntimeConfig (account : MinecraftAccount) : ClientRuntimeConfig :=
  let spawner := resolveSpawnerActions account.spawnerType (parseSpawnerActions account.spawnerActions)
  { id := account.id
    name := account.name
    minecraftVersion := account.minecraftVersion
    serverHost := account.serverHost
    serverPort := account.serverPort
    edition := if account.edition = "BEDROCK" then .bedrock else .java
    authType := account.authType
    credentialsSecret := account.credentialsSecret
    credentialsPassword := account.credentialsPassword
    crouchEnabled := account.crouchEnabled
    autoButton := account.autoButton
    autoReconnect := account.autoReconnect
    autoReturnHome := some account.autoReturnHome
    autoSellEnabled := account.autoSellEnabled
    autoSellIntervalSeconds := account.autoSellIntervalSeconds
    autoSellCommand := account.autoSellCommand
    spawnerType := account.spawnerType
    spawnerDropItems := spawner.1
    spawnerSellItems := spawner.2 }

/-! ### The manager -/

structure Registered where
  id : String
  client : Client

/-- A write of the intent to run that the database has not applied yet. -/
structure AutoStartWrite where
  number : ℕ
  accountId : String
  autoStart : Bool
  deriving DecidableEq, Repr

structure ClientManager where
  accounts : Table MinecraftAccount.id
  clients : Table Registered.id := Table.empty
  /-- Clients that were unregistered. -/
  disposed : List Client := []
  writes : Table AutoStartWrite.number := Table.empty
  nextWrite : ℕ := 0
  /-- What was asked for last for an account comes first. -/
  operations : List (String × Bool) := []

namespace ClientManager

def client? (m : ClientManager) (accountId : String) : Option Client :=
  (m.clients.find? accountId).map (·.client)

def updateClient (m : ClientManager) (accountId : String) (f : Client → Client) : ClientManager :=
  { m with clients := m.clients.update accountId (fun r => { r with client := f r.client }) fun _ => rfl }

def register (m : ClientManager) (account : MinecraftAccount) : ClientManager :=
  match m.client? account.id with
  | some _ => m.updateClient account.id (·.step (.updateConfig (toRuntimeConfig account)))
  | none =>
      { m with clients := m.clients.insert ⟨account.id, Client.init (toRuntimeConfig account)⟩ }

def unregister (m : ClientManager) (accountId : String) : ClientManager :=
  match m.client? accountId with
  | some client =>
      { m with
        clients := m.clients.delete accountId
        disposed := client.step .dispose :: m.disposed }
  | none => m

def persistAutoStart (m : ClientManager) (accountId : String) (autoStart : Bool) : ClientManager :=
  { m with
    writes := m.writes.insert ⟨m.nextWrite, accountId, autoStart⟩
    nextWrite := m.nextWrite + 1
    operations := (accountId, autoStart) :: m.operations }

def start (m : ClientManager) (accountId : String) : ClientManager × Bool :=
  match m.client? accountId with
  | none => (m, false)
  | some _ => ((m.persistAutoStart accountId true).updateClient accountId (·.step .connect), true)

def stop (m : ClientManager) (accountId : String) : ClientManager × Bool :=
  match m.client? accountId with
  | none => (m, false)
  | some _ => ((m.persistAutoStart accountId false).updateClient accountId (·.step .disconnect), true)

def restart (m : ClientManager) (accountId : String) : ClientManager × Bool :=
  match m.client? accountId with
  | none => (m, false)
  | some _ => ((m.persistAutoStart accountId true).updateClient accountId (·.step .restart), true)

/-- The clients that are online at this moment. -/
def online (m : ClientManager) : List String :=
  (m.clients.rows.filter (·.client.status = .online)).map (·.id)

/-- The new state and the accounts that were restarted. -/
def restartAllOnline (m : ClientManager) : ClientManager × List String :=
  (m.online.foldl (fun m id => (m.updateClient id (·.step .restart)).persistAutoStart id true) m,
    m.online)

/-- The database applies a write; one to a deleted account changes nothing. -/
def applyWrite (m : ClientManager) (number : ℕ) : ClientManager :=
  match m.writes.find? number with
  | none => m
  | some write =>
      { m with
        writes := m.writes.delete number
        accounts := m.accounts.update write.accountId
          (fun account => { account with autoStart := write.autoStart }) fun _ => rfl }

/-- Whether the input is a call that only the manager makes. -/
def isManaged : Client.Input → Bool
  | .connect | .disconnect | .restart | .dispose | .updateConfig _ => true
  | _ => false

inductive Input where
  | start (accountId : String)
  | stop (accountId : String)
  | restart (accountId : String)
  | restartAllOnline
  /-- An event, a timer or another call of a client, not one the manager makes. -/
  | client (accountId : String) (input : Client.Input)
  | applyWrite (number : ℕ)

def step (m : ClientManager) : Input → ClientManager
  | .start accountId => (m.start accountId).1
  | .stop accountId => (m.stop accountId).1
  | .restart accountId => (m.restart accountId).1
  | .restartAllOnline => m.restartAllOnline.1
  | .client accountId input =>
      if isManaged input then m else m.updateClient accountId (·.step input)
  | .applyWrite number => m.applyWrite number

end ClientManager

end AfkClient

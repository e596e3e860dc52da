import AfkClient.Model.Accounts

/-! The request that creates an account, query by query. Before a query other requests may delete
users, and every query may fail. -/

namespace AfkClient.AccountCreation

open Accounts (Reply)

structure AccountRow extends MinecraftAccount where
  createdById : Option String
  dashboardOrder : ℤ

structure AuditLog where
  userId : String
  action : String
  targetType : String
  targetId : String
  /-- The entries `name` and `serverHost` of `details`. -/
  details : String × String
  deriving DecidableEq, Repr

structure Database where
  /-- The ids of the users. -/
  users : List String
  accounts : List AccountRow := []
  /-- User and account of an assignment. -/
  assignments : List (String × String) := []
  auditLogs : List AuditLog := []

inductive Failure where
  /-- `P2002` -/
  | uniqueConstraint
  /-- `P2003` -/
  | foreignKey
  /-- Any other. -/
  | database
  deriving DecidableEq, Repr

/-- What happens to a query: the users deleted before it, and whether it fails. -/
structure Point where
  deleted : List String := []
  fails : Bool := false
  deriving DecidableEq, Repr

/-- The points of a request, one for each query. -/
structure Plan where
  aggregate : Point := {}
  create : Point := {}
  assign : Point := {}
  reread : Point := {}
  full : Point := {}
  audit : Point := {}
  deriving DecidableEq, Repr

namespace Database

/-- The assignments of the user go, and its accounts stay. -/
def deleteUser (db : Database) (id : String) : Database :=
  { db with
    users := db.users.filter (· ≠ id)
    accounts := db.accounts.map fun row =>
      if row.createdById = some id then { row with createdById := none } else row
    assignments := db.assignments.filter (·.1 ≠ id) }

def maxOrder (db : Database) : Option ℤ := (db.accounts.map (·.dashboardOrder)).max?

def create (db : Database) (row : AccountRow) : Except Failure Database :=
  if db.accounts.any fun other => other.id = row.id ∨ other.name = row.name then
    .error .uniqueConstraint
  else if ¬ row.createdById.all (· ∈ db.users) then .error .foreignKey
  else .ok { db with accounts := db.accounts ++ [row] }

/-- One transaction: all assignments of the account are replaced. -/
def setAssignments (db : Database) (accountId : String) (userIds : List String) :
    Except Failure Database :=
  if userIds ≠ [] ∧ ¬ (db.accounts.any (·.id = accountId) ∧ userIds.all (· ∈ db.users)) then
    .error .foreignKey
  else .ok { db with
    assignments := db.assignments.filter (·.2 ≠ accountId)
      ++ userIds.dedup.map fun userId => (userId, accountId) }

def getFullAccount (db : Database) (id : String) : Option AccountRow :=
  db.accounts.find? (·.id = id)

def getAccountForSession (db : Database) (session : Accounts.Session) (id : String) :
    Option AccountRow :=
  (db.getFullAccount id).filter fun _ =>
    session.role = .admin ∨ db.assignments.any fun a => a.1 = session.userId ∧ a.2 = id

end Database

abbrev Request (α : Type) := ExceptT Failure (StateM Database) α

/-- A query at its point of the request. -/
def query {α : Type} (point : Point) (run : Database → Except Failure (α × Database)) : Request α :=
  fun db =>
    let db := point.deleted.foldl Database.deleteUser db
    if point.fails then (.error .database, db)
    else match run db with
      | .error failure => (.error failure, db)
      | .ok (a, db) => (.ok a, db)

/-- `id` is the one the database gives the row. -/
def createAccount (plan : Plan) (id : String) (input : CreateAccountInput)
    (creator : Accounts.Session) :
    Request (Option AccountRow) := do
  let maxOrder ← query plan.aggregate fun db => .ok (db.maxOrder, db)
  let account : AccountRow :=
    { input.account id with
      createdById := some creator.userId
      dashboardOrder := maxOrder.getD (-1) + 1 }
  query plan.create fun db => (db.create account).map fun db => ((), db)
  if creator.role ≠ .admin then
    query plan.assign fun db =>
      (db.setAssignments account.id [creator.userId]).map fun db => ((), db)
    query plan.reread fun db => .ok (db.getAccountForSession creator account.id, db)
  else return some account

structure Outcome where
  reply : Reply
  /-- What the client manager registers. -/
  registered : Option AccountRow := none

/-- What the handler does with the account, or with what was thrown instead. -/
def respond (plan : Plan) (session : Accounts.Session) :
    Except Failure (Option AccountRow) → StateM Database Outcome
  | .error .uniqueConstraint => return { reply := .error 409 "Account name already exists" }
  | .error _ => return { reply := .thrown }
  | .ok none => return { reply := .unanswered }
  | .ok (some account) => do
      match ← query plan.full fun db => .ok (db.getFullAccount account.id, db) with
      | .error _ => return { reply := .thrown }
      | .ok full =>
          -- a failure of the audit log is caught
          let _ ← query plan.audit fun db => .ok ((), { db with
            auditLogs := db.auditLogs ++ [{
              userId := session.userId
              action := "ACCOUNT_CREATE"
              targetType := "MinecraftAccount"
              targetId := account.id
              details := (account.name, account.serverHost) }] })
          return { reply := .created account.id, registered := full }

/-- `POST /api/minecraft/accounts`, its body parsed. -/
def postAccount (plan : Plan) (id : String) (input : CreateAccountInput)
    (session : Accounts.Session) :
    StateM Database Outcome := do
  respond plan session (← createAccount plan id input session)

end AfkClient.AccountCreation

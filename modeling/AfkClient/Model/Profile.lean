import Mathlib.Data.Finset.Card
import AfkClient.Library.Run
import AfkClient.Library.Stringify
import AfkClient.Model.AuthSession
import AfkClient.Model.Client

/-! Dashboard preferences. They stand as a JSON text in a column of the user; every call is one
transaction. -/

namespace AfkClient.Profile

/-! ### Schemas -/

def validId (id : String) : Bool := 1 ≤ Client.utf16Length id && Client.utf16Length id ≤ 160

abbrev Id := { id : String // validId id }

/-- What `ids` accepts. -/
structure ValidIds (ids : List String) : Prop where
  valid : ∀ id ∈ ids, validId id
  length : ids.length ≤ 10000
  nodup : ids.Nodup

instance (ids : List String) : Decidable (ValidIds ids) :=
  decidable_of_iff ((∀ id ∈ ids, validId id) ∧ ids.length ≤ 10000 ∧ ids.Nodup)
    ⟨fun h => ⟨h.1, h.2.1, h.2.2⟩, fun h => ⟨h.valid, h.length, h.nodup⟩⟩

abbrev Ids := { ids : List String // ValidIds ids }

structure DashboardPreferences where
  accountOrder : List String := []
  blurredAccountIds : List String := []
  uploaderOrder : List String := []
  collapsedUploaderIds : List String := []
  deriving DecidableEq, Repr

/-- What `preferencesSchema` accepts. -/
structure DashboardPreferences.Valid (p : DashboardPreferences) : Prop where
  accountOrder : ValidIds p.accountOrder
  blurredAccountIds : ValidIds p.blurredAccountIds
  uploaderOrder : ValidIds p.uploaderOrder
  collapsedUploaderIds : ValidIds p.collapsedUploaderIds

structure Blur where
  accountId : Id
  value : Bool
  deriving DecidableEq

structure Collapse where
  uploaderId : Id
  value : Bool
  deriving DecidableEq

structure PreferencesPatch where
  accountOrder : Option Ids := none
  uploaderOrder : Option Ids := none
  blur : Option Blur := none
  collapse : Option Collapse := none
  /-- "No preference changes provided" -/
  named : accountOrder.isSome ∨ uploaderOrder.isSome ∨ blur.isSome ∨ collapse.isSome

def text? : Json → Option String
  | .str text => some text
  | _ => none

/-- `ids.default([])` -/
def parseIds : Option Json → Option (List String)
  | none => some []
  | some (.arr items) => do
      let ids ← items.mapM text?
      if ValidIds ids then some ids else none
  | some _ => none

def fields : List String :=
  ["accountOrder", "blurredAccountIds", "uploaderOrder", "collapsedUploaderIds"]

/-- `preferencesSchema.safeParse` -/
def safeParse : Json → Option DashboardPreferences
  | .obj entries =>
      if entries.all fun e => e.1 ∈ fields then do
        let accountOrder ← parseIds (Json.find entries "accountOrder")
        let blurredAccountIds ← parseIds (Json.find entries "blurredAccountIds")
        let uploaderOrder ← parseIds (Json.find entries "uploaderOrder")
        let collapsedUploaderIds ← parseIds (Json.find entries "collapsedUploaderIds")
        some { accountOrder, blurredAccountIds, uploaderOrder, collapsedUploaderIds }
      else none
  | _ => none

/-! ### Texts -/

def decode (raw : Option String) : DashboardPreferences :=
  ((Json.parse (raw.getD "\x7b\x7d").toList).bind safeParse).getD {}

def idsText (ids : List String) : List Char := Json.array (ids.map Json.quote)

/-- `JSON.stringify(preferences)` -/
def stringify (p : DashboardPreferences) : String :=
  .ofList (Json.object [("accountOrder", idsText p.accountOrder),
    ("blurredAccountIds", idsText p.blurredAccountIds), ("uploaderOrder", idsText p.uploaderOrder),
    ("collapsedUploaderIds", idsText p.collapsedUploaderIds)])

/-! ### Database -/

structure UserRow where
  id : String
  role : Role
  dashboardPreferences : Option String := none
  deriving DecidableEq, Repr

structure Database where
  users : Table UserRow.id
  minecraftAccounts : List String
  assignments : List Auth.Assignment
  deriving DecidableEq

structure Session where
  userId : String
  role : Role
  deriving DecidableEq, Repr

structure Scope where
  accounts : Finset String
  uploaders : Finset String
  deriving DecidableEq

def Database.assigned (db : Database) (userId id : String) : Bool :=
  db.assignments.any fun a => a.userId = userId && a.minecraftAccountId = id

def Database.scope (db : Database) (session : Session) : Scope where
  accounts := (db.minecraftAccounts.filter fun id =>
    session.role = .admin || db.assigned session.userId id).toFinset
  uploaders :=
    if session.role = .admin then
      ("unassigned" :: db.users.rows.map fun user => "user:" ++ user.id).toFinset
    else ∅

def visible (p : DashboardPreferences) (allowed : Scope) : DashboardPreferences where
  accountOrder := p.accountOrder.filter (· ∈ allowed.accounts)
  blurredAccountIds := p.blurredAccountIds.filter (· ∈ allowed.accounts)
  uploaderOrder := p.uploaderOrder.filter (· ∈ allowed.uploaders)
  collapsedUploaderIds := p.collapsedUploaderIds.filter (· ∈ allowed.uploaders)

/-! ### Calls -/

structure Answer where
  initialized : Bool
  preferences : DashboardPreferences
  deriving DecidableEq, Repr

inductive Failure where
  /-- `findUniqueOrThrow` -/
  | noUser
  | invalid (message : String) (statusCode : ℕ)
  deriving DecidableEq, Repr

def getAccountOrder (db : Database) (userId : String) : Except Failure (List String) :=
  match db.users.find? userId with
  | none => .error .noUser
  | some user => .ok (decode user.dashboardPreferences).accountOrder

def getPreferences (db : Database) (session : Session) : Except Failure Answer :=
  match db.users.find? session.userId with
  | none => .error .noUser
  | some user => .ok
      { initialized := user.dashboardPreferences.isSome
        preferences := visible (decode user.dashboardPreferences) (db.scope session) }

def setMembership (ids : List String) (id : String) (value : Bool) : List String :=
  if value then (ids ++ [id]).eraseDups else ids.filter (· ≠ id)

def patchAccountOrder (allowed : Scope) (patch : PreferencesPatch) (p : DashboardPreferences) :
    Except Failure DashboardPreferences :=
  match patch.accountOrder with
  | none => .ok p
  | some order =>
      if order.1.length ≠ allowed.accounts.card ∨ order.1.any (· ∉ allowed.accounts) then
        .error (.invalid "Invalid account order payload" 400)
      else .ok { p with
        accountOrder := order.1 ++ p.accountOrder.filter (· ∉ allowed.accounts) }

def patchBlur (allowed : Scope) (patch : PreferencesPatch) (p : DashboardPreferences) :
    Except Failure DashboardPreferences :=
  match patch.blur with
  | none => .ok p
  | some blur =>
      if blur.accountId.1 ∉ allowed.accounts then .error (.invalid "Account not found" 404)
      else .ok { p with
        blurredAccountIds := setMembership p.blurredAccountIds blur.accountId.1 blur.value }

def patchUploaderOrder (allowed : Scope) (patch : PreferencesPatch) (p : DashboardPreferences) :
    Except Failure DashboardPreferences :=
  match patch.uploaderOrder with
  | none => .ok p
  | some order =>
      if order.1.any (· ∉ allowed.uploaders) then
        .error (.invalid "Invalid uploader order payload" 400)
      else .ok { p with uploaderOrder := order.1 }

def patchCollapse (allowed : Scope) (patch : PreferencesPatch) (p : DashboardPreferences) :
    Except Failure DashboardPreferences :=
  match patch.collapse with
  | none => .ok p
  | some collapse =>
      if collapse.uploaderId.1 ∉ allowed.uploaders then
        .error (.invalid "Uploader not found" 404)
      else .ok { p with
        collapsedUploaderIds :=
          setMembership p.collapsedUploaderIds collapse.uploaderId.1 collapse.value }

def patchUploaders (session : Session) (allowed : Scope) (patch : PreferencesPatch)
    (p : DashboardPreferences) : Except Failure DashboardPreferences :=
  if patch.uploaderOrder.isSome ∨ patch.collapse.isSome then
    if session.role ≠ .admin then .error (.invalid "Admin role required" 403)
    else do
      let p ← patchUploaderOrder allowed patch p
      patchCollapse allowed patch p
  else .ok p

/-- What `updatePreferences` makes of the preferences between its read and its write. -/
def applyPatch (session : Session) (allowed : Scope) (patch : PreferencesPatch)
    (p : DashboardPreferences) : Except Failure DashboardPreferences := do
  let p ← patchAccountOrder allowed patch p
  let p ← patchBlur allowed patch p
  patchUploaders session allowed patch p

def Database.save (db : Database) (userId text : String) : Database :=
  { db with
    users := db.users.update userId (fun user => { user with dashboardPreferences := some text })
      fun _ => rfl }

def updatePreferences (db : Database) (session : Session) (patch : PreferencesPatch) :
    Except Failure (Database × Answer) :=
  match db.users.find? session.userId with
  | none => .error .noUser
  | some user => do
      let allowed := db.scope session
      let preferences ←
        applyPatch session allowed patch (decode user.dashboardPreferences)
      .ok (db.save session.userId (stringify preferences), ⟨true, visible preferences allowed⟩)

def importPreferences (db : Database) (session : Session) (legacy : DashboardPreferences) :
    Except Failure (Database × Answer) :=
  let allowed := db.scope session
  match db.users.find? session.userId with
  | none => .error .noUser
  | some user =>
      match user.dashboardPreferences with
      | some text => .ok (db, ⟨true, visible (decode (some text)) allowed⟩)
      | none =>
          let text := stringify (visible legacy allowed)
          .ok (db.save session.userId text, ⟨true, visible (decode (some text)) allowed⟩)

/-! ### Transactions in their order -/

inductive Event where
  | updatePreferences (session : Session) (patch : PreferencesPatch)
  | importPreferences (session : Session) (legacy : { p : DashboardPreferences // p.Valid })
  | createAccount (id : String)
  | deleteAccount (id : String)
  | assign (assignment : Auth.Assignment)
  | unassign (assignment : Auth.Assignment)
  | createUser (id : String) (role : Role)
  | deleteUser (id : String)
  | setRole (id : String) (role : Role)

/-- A call that fails leaves the database as it is. -/
def commit (db : Database) : Except Failure (Database × Answer) → Database
  | .error _ => db
  | .ok (db, _) => db

def step (db : Database) : Event → Database
  | .updatePreferences session patch => commit db (updatePreferences db session patch)
  | .importPreferences session legacy => commit db (importPreferences db session legacy.1)
  | .createAccount id =>
      if id ∈ db.minecraftAccounts then db
      else { db with minecraftAccounts := db.minecraftAccounts ++ [id] }
  | .deleteAccount id =>
      { db with
        minecraftAccounts := db.minecraftAccounts.filter (· ≠ id)
        assignments := db.assignments.filter (·.minecraftAccountId ≠ id) }
  | .assign assignment =>
      if assignment ∈ db.assignments then db
      else { db with assignments := db.assignments ++ [assignment] }
  | .unassign assignment => { db with assignments := db.assignments.filter (· ≠ assignment) }
  | .createUser id role => { db with users := db.users.insert { id, role } }
  | .deleteUser id =>
      { db with
        users := db.users.delete id
        assignments := db.assignments.filter (·.userId ≠ id) }
  | .setRole id role =>
      { db with users := db.users.update id (fun user => { user with role }) fun _ => rfl }

end AfkClient.Profile

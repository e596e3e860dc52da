import AfkClient.Library.Keyset
import AfkClient.Library.Table
import Mathlib.Algebra.Order.Floor.Ring
import Mathlib.Data.Prod.Lex
import Mathlib.Data.Rat.Floor
import Mathlib.Data.String.Basic

/-! The console lines in the database: how a batch of them is stored, and how they are read page
by page. -/

namespace AfkClient.ConsoleLogs

inductive ConsoleLogType where
  | SYSTEM
  | CHAT
  | SERVER_MESSAGE
  | USER_COMMAND
  | ERROR
  | WARNING
  deriving DecidableEq, Repr

/-- An id that the database client has generated. -/
abbrev Cuid := { id : String // id ≠ "" }

structure ConsoleLog where
  id : Cuid
  minecraftAccountId : String
  type : ConsoleLogType
  message : String
  createdAt : ℤ
  deriving DecidableEq, Repr

/-- `("createdAt", "id")` -/
def ConsoleLog.key (row : ConsoleLog) : ℤ ×ₗ Cuid := toLex (row.createdAt, row.id)

abbrev Database := Table ConsoleLog.id

def MAX_LOGS_PER_ACCOUNT : ℕ := 20000

def CONSOLE_HISTORY_PAGE_SIZE : ℕ := 2000

namespace Database

/-- The rows of an account, `ORDER BY "createdAt" DESC, "id" DESC` -/
def newest (db : Database) (accountId : String) : List ConsoleLog :=
  Keyset.newestFirst ConsoleLog.key (db.rows.filter (·.minecraftAccountId = accountId))

/-- All rows older than the last one that is kept are deleted, none when there is no such row. -/
def prune (db : Database) (accountId : String) : Database :=
  match (db.newest accountId)[MAX_LOGS_PER_ACCOUNT - 1]? with
  | some last => db.deleteWhere fun row => row.minecraftAccountId = accountId && decide (row.key < last.key)
  | none => db

/-- `createMany`, which fails on an id that exists. -/
def createMany (db : Database) (rows : List ConsoleLog) : Option Database :=
  if h : ((db.rows ++ rows).map (·.id)).Nodup then some ⟨db.rows ++ rows, h⟩ else none

/-- The transaction of a batch. -/
def write (db : Database) (rows : List ConsoleLog) : Database :=
  match db.createMany rows with
  | some db' => (rows.map (·.minecraftAccountId)).eraseDups.foldl prune db'
  | none => db

/-- The page size for a requested limit; `none` stands for a number that is not finite. -/
def takeOf : Option ℚ → ℕ
  | some limit => (max 1 (min (CONSOLE_HISTORY_PAGE_SIZE : ℤ) ⌊limit⌋)).toNat
  | none => CONSOLE_HISTORY_PAGE_SIZE

/-- The cursor for `before`: none is needed for an empty one, and `none` in front of it says that
it was not found. -/
def findCursor (db : Database) (accountId : String) (before : Option String) :
    Option (Option ConsoleLog) :=
  match before with
  | none | some "" => some none
  | some id => (db.rows.find? fun row => row.id.val = id && row.minecraftAccountId = accountId).map some

/-- Behind the cursor in time, or at its time with a smaller id. -/
def behind (cursor row : ConsoleLog) : Bool :=
  row.createdAt < cursor.createdAt || (row.createdAt = cursor.createdAt && decide (row.id < cursor.id))

def findPage (db : Database) (accountId : String) (take : ℕ) (cursor : Option ConsoleLog) :
    List ConsoleLog :=
  ((Keyset.newestFirst ConsoleLog.key (db.rows.filter fun row =>
    row.minecraftAccountId = accountId && cursor.all (behind · row))).take take).reverse

/-- Both queries of the function at once. -/
def getConsoleLogs (db : Database) (accountId : String) (limit : Option ℚ) (before : Option String) :
    List ConsoleLog :=
  match db.findCursor accountId before with
  | some cursor => db.findPage accountId (takeOf limit) cursor
  | none => []

end Database

/-! ### Paging -/

inductive Phase where
  | ready
  /-- The cursor is found, the page is not. -/
  | found (take : ℕ) (cursor : Option ConsoleLog)
  | ended
  deriving DecidableEq, Repr

/-- A reader of an account's history beside the database. -/
structure Reading where
  db : Database
  accountId : String
  pages : List (List ConsoleLog) := []
  phase : Phase := .ready
  deriving DecidableEq

namespace Reading

/-- The id of the oldest row of the previous page. -/
def before (s : Reading) : Option String :=
  s.pages.getLast?.bind fun page => page.head?.map (·.id.val)

/-- The first query of the next page. -/
def request (s : Reading) (limit : Option ℚ) : Reading :=
  match s.phase with
  | .ready =>
      match s.db.findCursor s.accountId s.before with
      | some cursor => { s with phase := .found (Database.takeOf limit) cursor }
      | none => { s with pages := s.pages ++ [[]], phase := .ended }
  | _ => s

/-- The second one, after which the reader goes on unless the page is empty. -/
def receive (s : Reading) : Reading :=
  match s.phase with
  | .found take cursor =>
      { s with
        pages := s.pages ++ [s.db.findPage s.accountId take cursor]
        phase := if s.db.findPage s.accountId take cursor = [] then .ended else .ready }
  | _ => s

end Reading

inductive Input where
  | write (rows : List ConsoleLog)
  | request (limit : Option ℚ)
  | receive
  deriving DecidableEq, Repr

def Reading.step (s : Reading) : Input → Reading
  | .write rows => { s with db := s.db.write rows }
  | .request limit => s.request limit
  | .receive => s.receive

end AfkClient.ConsoleLogs

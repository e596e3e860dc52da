import AfkClient.Library.Journal
import AfkClient.Library.Text
import AfkClient.Model.Client
import AfkClient.Model.NoteDocument
import AfkClient.Model.Users

/-! The requests that change notes and the access to them. A request reads and writes in one
transaction, so requests of many users are a list of transactions. -/

namespace AfkClient.Notes

open Json NoteDocument

structure Grant where
  userId : String
  canWrite : Bool
  deriving DecidableEq, Repr

structure Note where
  id : String
  title : String
  content : Json
  revision : ℕ
  ownerId : String
  grants : List Grant

structure Database where
  users : Table User.id
  notes : Table Note.id

/-- `visibleTo(userId)` -/
def Note.visibleTo (note : Note) (userId : String) : Bool :=
  note.ownerId = userId || note.grants.any (·.userId = userId)

/-- `writableBy(userId)` -/
def Note.writableBy (note : Note) (userId : String) : Bool :=
  note.ownerId = userId || note.grants.any fun grant => grant.userId = userId && grant.canWrite

def Database.changeNote (db : Database) (id : String) (f : Note → Note)
    (hf : ∀ n, (f n).id = n.id) :
    Database :=
  { db with notes := db.notes.update id f hf }

/-! ### The bodies of requests -/

structure UpdateNote where
  revision : ℕ
  title : Option String
  content : Option Json

/-- `z.number().int().nonnegative()` -/
def revisionSchema : Option Json → Option ℕ
  | some (.num revision) =>
      if revision.den = 1 ∧ 0 ≤ revision ∧ revision ≤ 9007199254740991 then some revision.num.toNat
      else none
  | _ => none

/-- `z.string().trim().min(1).optional()` -/
def titleSchema : Option Json → Option (Option String)
  | none => some none
  | some (.str title) =>
      let title := String.ofList (Text.trim title.toList)
      if title = "" then none else some (some title)
  | some _ => none

/-- `documentSchema.optional()` -/
def contentSchema (url : UrlParser) : Option Json → Option (Option Json)
  | none => some none
  | some content => if isNoteDocument url content then some (some (transform content)) else none

def updateNoteSchema (url : UrlParser) : Json → Option UpdateNote
  | .obj body => do
      let revision ← revisionSchema (find body "revision")
      let title ← titleSchema (find body "title")
      let content ← contentSchema url (find body "content")
      if keys body ["revision", "title", "content"] ∧ (title.isSome ∨ content.isSome) then
        some ⟨revision, title, content⟩
      else none
  | _ => none

def grantSchema : Json → Option Grant
  | .obj grant => match find grant "userId", find grant "canWrite" with
      | some (.str userId), some (.bool canWrite) =>
          let length := Client.utf16Length userId
          if keys grant ["userId", "canWrite"] ∧ 1 ≤ length ∧ length ≤ 160 then
            some ⟨userId, canWrite⟩
          else none
      | _, _ => none
  | _ => none

def noteAccessSchema : Json → Option (List Grant)
  | .obj body => match find body "users" with
      | some (.arr users) =>
          if keys body ["users"] ∧ users.length ≤ 10000 then users.mapM grantSchema else none
      | _ => none
  | _ => none

/-! ### Replies -/

/-- What a user is shown of a note. -/
structure View where
  id : String
  title : String
  ownerId : String
  revision : ℕ
  canWrite : Bool
  isOwner : Bool
  shared : Bool
  grants : List Grant
  deriving DecidableEq, Repr

def present (note : Note) (userId : String) : View :=
  let isOwner := decide (note.ownerId = userId)
  { id := note.id
    title := note.title
    ownerId := note.ownerId
    revision := note.revision
    canWrite := isOwner || note.grants.any fun grant => grant.userId = userId && grant.canWrite
    isOwner
    shared := 0 < note.grants.length
    grants := if isOwner then note.grants else [] }

inductive Reply where
  | note (view : View)
  | grants (grants : List Grant)
  | noContent
  | error (code : ℕ) (message : String)
  deriving DecidableEq, Repr

def validationFailed : Reply := .error 400 "Validation failed"

/-! ### The transactions -/

/-- `findFirst({ where: { id, ...visibleTo(userId) } })` -/
def findVisible (db : Database) (id userId : String) : Option Note :=
  (db.notes.find? id).filter (·.visibleTo userId)

def UpdateNote.apply (data : UpdateNote) (note : Note) : Note :=
  { note with
    title := data.title.getD note.title
    content := data.content.getD note.content
    revision := note.revision + 1 }

theorem UpdateNote.apply_id (data : UpdateNote) (note : Note) : (data.apply note).id = note.id :=
    rfl

/-- `updateMany({ where: { id, revision, ...writableBy(userId) }, data })`, with its count. -/
def updateMany (db : Database) (id userId : String) (data : UpdateNote) : Database × ℕ :=
  match (db.notes.find? id).filter fun note =>
      note.revision = data.revision && note.writableBy userId with
  | none => (db, 0)
  | some _ => (db.changeNote id data.apply data.apply_id, 1)

def patchNote (url : UrlParser) (db : Database) (userId id : String) (body : Json) :
    Reply × Database :=
  match updateNoteSchema url body with
  | none => (validationFailed, db)
  | some body =>
      let (db, changed) := updateMany db id userId body
      match findVisible db id userId with
      | none => (.error 404 "Notiz nicht gefunden", db)
      | some note =>
          let note := present note userId
          if ! note.canWrite then (.error 403 "Du hast nur Leserechte für diese Notiz", db)
          else if changed ≠ 1 then
            (.error 409 ("Diese Notiz wurde inzwischen geändert. "
              ++ "Deine Änderungen wurden nicht überschrieben."), db)
          else (.note note, db)

def setGrants (grants : List Grant) (note : Note) : Note := { note with grants }

theorem setGrants_id (grants : List Grant) (note : Note) : (setGrants grants note).id = note.id :=
    rfl

/-- The check of the selected users. -/
def invalidSelection (db : Database) (userId : String) (users : List Grant) : Bool :=
  let ids := users.map Grant.userId
  userId ∈ ids || ids.dedup.length ≠ ids.length ||
    db.users.count (fun user => user.id ∈ ids && user.status = .active) ≠ ids.length

def putAccess (db : Database) (userId id : String) (body : Json) : Reply × Database :=
  match noteAccessSchema body with
  | none => (validationFailed, db)
  | some users =>
      match (db.notes.find? id).filter (·.ownerId = userId) with
      | none => (.error 404 "Nur der Ersteller kann Zugriffsrechte ändern", db)
      | some _ =>
          if invalidSelection db userId users then (.error 400 "Ungültige Nutzerauswahl", db)
          else (.grants users, db.changeNote id (setGrants users) (setGrants_id users))

def deleteNote (db : Database) (userId id : String) : Reply × Database :=
  match (db.notes.find? id).filter (·.ownerId = userId) with
  | none => (.error 404 "Nur der Ersteller kann diese Notiz löschen", db)
  | some _ => (.noContent, { db with notes := db.notes.delete id })

/-! ### Runs -/

/-- A request of a user that has passed the authentication. -/
inductive Request where
  | patch (id : String) (body : Json)
  | access (id : String) (body : Json)
  | delete (id : String)

def serve (url : UrlParser) (db : Database) (userId : String) : Request → Reply × Database
  | .patch id body => patchNote url db userId id body
  | .access id body => putAccess db userId id body
  | .delete id => deleteNote db userId id

/-- What else changes notes and users. -/
inductive Change where
  | createNote (id ownerId title : String) (content : Json)
  | createUser (user : User)
  | updateUser (id : String) (input : UpdateUserInput)
  | deleteUser (id : String)

/-- The notes of a deleted user and the grants to the user are deleted too. -/
def Change.apply (db : Database) : Change → Database
  | .createNote id ownerId title content =>
      { db with notes := db.notes.insert ⟨id, title, content, 0, ownerId, []⟩ }
  | .createUser user => { db with users := db.users.insert user }
  | .updateUser id input => { db with users := db.users.update id input.apply input.apply_id }
  | .deleteUser id =>
      { users := db.users.delete id
        notes := (db.notes.deleteWhere (·.ownerId = id)).updateAll
          (fun note => setGrants (note.grants.filter (·.userId ≠ id)) note) fun _ =>
            setGrants_id _ _ }

inductive Event where
  | request (userId : String) (request : Request)
  /-- The transaction of the request is rolled back. -/
  | failed (userId : String) (request : Request)
  | change (change : Change)

inductive Entry where
  | served (userId : String) (request : Request) (reply : Reply)
  | changed (change : Change)

def Entry.reply? : Entry → Option Reply
  | .served _ _ reply => some reply
  | .changed _ => none

/-- One transaction. The identifier of a new note is new. -/
def step (url : UrlParser) (s : Database × List Entry) : Event → Database × List Entry
  | .request userId request =>
      let (reply, db) := serve url s.1 userId request
      (db, s.2 ++ [.served userId request reply])
  | .failed userId request =>
      (s.1, s.2 ++ [.served userId request (.error 500 "Internal server error")])
  | .change (.createNote id ownerId title content) =>
      if (s.1.notes.find? id).isSome then s
      else ((Change.createNote id ownerId title content).apply s.1,
        s.2 ++ [.changed (.createNote id ownerId title content)])
  | .change c => (c.apply s.1, s.2 ++ [.changed c])

end AfkClient.Notes

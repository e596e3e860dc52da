import AfkClient.Library.Run
import AfkClient.Model.Notes

/-! The editor of a note with its local draft. What the user does, and the responses to the
editor's requests, come in any order, the responses also when the editor is closed. -/

namespace AfkClient.NoteEditor

/-- A title and a content. `fingerprint` tells two of them apart. -/
structure Snapshot where
  title : String
  content : Json
  deriving DecidableEq

/-- The note as it was loaded. -/
structure Note extends Snapshot where
  revision : ℕ
  canWrite : Bool
  deriving DecidableEq

structure Draft extends Snapshot where
  revision : ℕ
  /-- The revision with which the text was last synchronised. -/
  base : ℕ
  deriving DecidableEq

inductive Status where
  | gespeichert | nichtGespeichert | speichert
  deriving DecidableEq, Repr

structure ApiError where
  status : ℕ
  message : String
  deriving DecidableEq, Repr

/-- A `PATCH` of the note. -/
structure Patch where
  snapshot : Snapshot
  revision : ℕ
  /-- The revision with which the text was last synchronised. -/
  base : ℕ
  /-- The reply of the server, once it has handled the request. -/
  reply : Option Notes.Reply := none
  deriving DecidableEq

/-- Why the local draft was removed. -/
inductive Removal where
  | saved | copied
  /-- There was nothing to ask the user. -/
  | unchanged
  /-- The user confirmed. -/
  | confirmed
  deriving DecidableEq, Repr

/-- The local draft in `localStorage`. -/
inductive Storage where
  | empty
  | stored (draft : Draft)
  | removed (why : Removal)
  deriving DecidableEq

def Storage.getItem : Storage → Option Draft
  | .stored draft => some draft
  | _ => none

/-- The text that the server acknowledged last. -/
inductive Acknowledged where
  /-- The loaded note. -/
  | loaded (note : Snapshot)
  /-- The body of a `PATCH` or of a `POST`. -/
  | patched (body : Snapshot)
  | copied (body : Snapshot)
  deriving DecidableEq

structure Editor where
  note : Note
  initial : Draft
  draft : Draft
  saved : Snapshot
  revision : ℕ
  conflict : Bool
  pending : Bool := false
  status : Status
  error : Option String
  canWrite : Bool
  copying : Bool := false
  mounted : Bool := true
  /-- The requests that were not answered. -/
  patches : List Patch := []
  copies : List Snapshot := []
  removals : ℕ := 0
  acknowledged : Acknowledged
  deriving DecidableEq

/-- An editor and the storage of its browser. -/
structure Tab where
  editor : Editor
  storage : Storage
  deriving DecidableEq

/-! ### Texts -/

/-- `title.trim() || "Neue Notiz"` -/
def sentTitle (title : String) : String :=
  let title := String.ofList (Text.trim title.toList)
  if title = "" then "Neue Notiz" else title

def Snapshot.patchBody (s : Snapshot) : Snapshot := { s with title := sentTitle s.title }

def Snapshot.copyBody (s : Snapshot) : Snapshot :=
    { s with title := sentTitle s.title ++ " (Kopie)" }

def Patch.body (p : Patch) : Json :=
  .obj [("title", .str p.snapshot.patchBody.title), ("content", p.snapshot.content),
    ("revision", .num p.revision)]

/-! ### Opening -/

def initialDraft (note : Note) (storage : Storage) : Draft :=
  let loaded : Draft := { note with base := note.revision }
  if note.canWrite then storage.getItem.getD loaded else loaded

/-- The text of the loaded note is synchronised with it, also where it comes from the storage. -/
def Editor.load (note : Note) (storage : Storage) : Editor :=
  let initial := initialDraft note storage
  let same := initial.toSnapshot = note.toSnapshot
  let conflict := initial.revision ≠ note.revision && !same
  { note
    initial
    draft := if same then { initial with base := note.revision } else initial
    saved := note.toSnapshot
    revision := note.revision
    conflict
    status := if same then .gespeichert else .nichtGespeichert
    error := if conflict then some
      "Die gespeicherte Notiz wurde inzwischen geändert. Dein lokaler Entwurf ist erhalten."
      else none
    canWrite := note.canWrite
    acknowledged := .loaded note.toSnapshot }

/-! ### The handlers of the editor -/

namespace Tab

def persistDraft (t : Tab) : Tab :=
  { t with storage := .stored { t.editor.draft with revision := t.editor.revision } }

def edited (t : Tab) : Tab :=
  let t := t.persistDraft
  { t with editor.status := .nichtGespeichert }

def onUpdate (content : Json) (t : Tab) : Tab :=
  edited { t with editor.draft := { t.editor.draft with content, revision := t.editor.revision } }

def onChange (title : String) (t : Tab) : Tab :=
  edited { t with editor.draft := { t.editor.draft with title } }

/-- The request of one turn of the loop in `save`. -/
def send (t : Tab) : Tab :=
  let patch : Patch := ⟨t.editor.draft.toSnapshot, t.editor.revision, t.editor.draft.base, none⟩
  { t with editor.patches := t.editor.patches ++ [patch] }

/-- The caller is a closure of an earlier render, with the `canWrite` of that time. -/
def save (canWrite : Bool) (t : Tab) : Tab :=
  let e := t.editor
  if e.pending then t
  else if e.draft.toSnapshot = e.saved then t
  else if ! canWrite || e.conflict then t
  else send { t with editor := { e with
    pending := true
    status := if e.mounted then .speichert else e.status
    error := if e.mounted then none else e.error } }

/-- The loop goes on as long as the draft is not the text that was saved. -/
def patched (request revision : ℕ) (t : Tab) : Tab :=
  match t.editor.patches[request]? with
  | none => t
  | some patch =>
      let e := { t.editor with
        revision
        draft := { t.editor.draft with revision, base := revision }
        saved := patch.snapshot
        patches := t.editor.patches.eraseIdx request
        acknowledged := .patched patch.snapshot.patchBody }
      if e.draft.toSnapshot = e.saved then
        { storage := .removed .saved
          editor := { e with
            pending := false
            status := if e.mounted then .gespeichert else e.status } }
      else (persistDraft ⟨e, t.storage⟩).send

def patchFailed (request : ℕ) (error : Option ApiError) (t : Tab) : Tab :=
  match t.editor.patches[request]? with
  | none => t
  | some _ =>
      let e := { t.editor with
        patches := t.editor.patches.eraseIdx request
        pending := false
        conflict := t.editor.conflict || error.any fun err : ApiError => err.status = 409 }
      persistDraft ⟨if e.mounted then { e with
        status := .nichtGespeichert
        error := some ((error.map ApiError.message).getD
          "Speichern fehlgeschlagen. Dein Text bleibt hier erhalten.")
        canWrite := e.canWrite && ! error.any fun err : ApiError =>
          err.status ∈ [403, 404] } else e, t.storage⟩

/-- The button is there with an error. -/
def copyDraft (t : Tab) : Tab :=
  if t.editor.error.isSome && ! t.editor.copying then
    { t with editor := { t.editor with
      copying := true
      copies := t.editor.copies ++ [t.editor.draft.toSnapshot.copyBody] } }
  else t

def copied (request : ℕ) (t : Tab) : Tab :=
  match t.editor.copies[request]? with
  | none => t
  | some body =>
      { storage := .removed .copied
        editor := { t.editor with
          saved := t.editor.draft.toSnapshot
          copies := t.editor.copies.eraseIdx request
          copying := if t.editor.mounted then false else t.editor.copying
          acknowledged := .copied body } }

def copyFailed (request : ℕ) (error : Option ApiError) (t : Tab) : Tab :=
  match t.editor.copies[request]? with
  | none => t
  | some _ =>
      { t with editor := { t.editor with
        copies := t.editor.copies.eraseIdx request
        copying := if t.editor.mounted then false else t.editor.copying
        error := some ((error.map ApiError.message).getD "Kopie konnte nicht gespeichert werden.") }
          }

def remove (t : Tab) : Tab := { t with editor.removals := t.editor.removals + 1 }

/-- `onDeleted` closes the editor. -/
def removed (t : Tab) : Tab :=
  if t.editor.removals = 0 then t
  else
    { storage := .removed .confirmed
      editor := { t.editor with
        removals := t.editor.removals - 1
        saved := t.editor.draft.toSnapshot
        mounted := false } }

def removeFailed (error : Option ApiError) (t : Tab) : Tab :=
  if t.editor.removals = 0 then t
  else
    { t with editor := { t.editor with
      removals := t.editor.removals - 1
      error := some ((error.map ApiError.message).getD "Notiz konnte nicht gelöscht werden.") } }

/-- `onReload` closes the editor. -/
def reload (confirmed : Bool) (t : Tab) : Tab :=
  let changed := t.editor.draft.toSnapshot ≠ t.editor.saved
  if changed && ! confirmed then t
  else
    { storage := .removed (if changed then .confirmed else .unchanged)
      editor := { t.editor with saved := t.editor.draft.toSnapshot, mounted := false } }

def unmount (t : Tab) : Tab := { t with editor.mounted := false }

end Tab

inductive Input where
  | onUpdate (content : Json)
  | onChange (title : String)
  | save (canWrite : Bool)
  | patched (request revision : ℕ)
  | patchFailed (request : ℕ) (error : Option ApiError)
  | copyDraft
  | copied (request : ℕ)
  | copyFailed (request : ℕ) (error : Option ApiError)
  | remove
  | removed
  | removeFailed (error : Option ApiError)
  | reload (confirmed : Bool)
  | unmount
  deriving DecidableEq

/-- What the user does needs an open editor. -/
def Input.needsMounted : Input → Bool
  | .onUpdate _ | .onChange _ | .copyDraft | .remove | .reload _ => true
  | _ => false

def Tab.handle (t : Tab) : Input → Tab
  | .onUpdate content => t.onUpdate content
  | .onChange title => t.onChange title
  | .save canWrite => t.save canWrite
  | .patched request revision => t.patched request revision
  | .patchFailed request error => t.patchFailed request error
  | .copyDraft => t.copyDraft
  | .copied request => t.copied request
  | .copyFailed request error => t.copyFailed request error
  | .remove => t.remove
  | .removed => t.removed
  | .removeFailed error => t.removeFailed error
  | .reload confirmed => t.reload confirmed
  | .unmount => t.unmount

def Tab.step (t : Tab) (i : Input) : Tab :=
  if i.needsMounted && ! t.editor.mounted then t else t.handle i

/-! ### A user's browser and the server -/

/-- The user, the note, and the URL parser of the server. -/
structure WorldConfig where
  url : UrlParser
  userId : String
  id : String

structure World where
  db : Notes.Database
  fetched : Option Note := none
  /-- The editors one after the other; at most one is mounted. -/
  editors : List Editor := []
  storage : Storage := .empty
  /-- Requests whose response is lost, but which the server may handle yet. -/
  lost : List Patch := []
  /-- For every `PATCH` that was accepted, the revision with which its text was last synchronised,
  and the revision that the note had. -/
  accepted : List (ℕ × ℕ) := []

/-- `GET /api/notes/:id` -/
def getNote (cfg : WorldConfig) (db : Notes.Database) : Option Note :=
  (Notes.findVisible db cfg.id cfg.userId).map fun note =>
    ⟨⟨note.title, note.content⟩, note.revision, (Notes.present note cfg.userId).canWrite⟩

inductive WorldInput where
  /-- A request of another user, or anything else that changes notes and users. -/
  | event (event : Notes.Event)
  | fetch
  | mount
  /-- An input of one editor; a reload of the page is an `unmount`. -/
  | act (editor : ℕ) (input : Input)
  /-- The server handles a request of the editor. -/
  | serve (editor request : ℕ)
  | reply (editor request : ℕ)
  | serveLost (request : ℕ)

namespace World

/-- The server handles the request. -/
def servePatch (cfg : WorldConfig) (w : World) (p : Patch) : Notes.Reply × World :=
  let (reply, db) := Notes.patchNote cfg.url w.db cfg.userId cfg.id p.body
  (reply, { w with
    db
    accepted := match reply, w.db.notes.find? cfg.id with
      | .note _, some note => w.accepted ++ [(p.base, note.revision)]
      | _, _ => w.accepted })

def withTab (w : World) (editor : ℕ) (t : Tab) : World :=
  { w with editors := w.editors.set editor t.editor, storage := t.storage }

/-- The request goes on without the editor that waits for it. -/
def loses (e : Editor) : Input → List Patch
  | .patchFailed request _ => (e.patches[request]?.filter (·.reply.isNone)).toList
  | _ => []

def step (cfg : WorldConfig) (w : World) : WorldInput → World
  | .event event => { w with db := (Notes.step cfg.url (w.db, []) event).1 }
  | .fetch => { w with fetched := getNote cfg w.db }
  | .mount => match w.fetched with
      | some note =>
          if w.editors.any Editor.mounted then w
          else { w with editors := w.editors ++ [.load note w.storage] }
      | none => w
  | .act _ (.patched _ _) => w
  | .act editor input => match w.editors[editor]? with
      | some e =>
          { w.withTab editor (Tab.step ⟨e, w.storage⟩ input) with lost := w.lost ++ loses e input }
      | none => w
  | .serve editor request =>
      match w.editors[editor]? with
      | none => w
      | some e => match e.patches[request]? with
          | some p =>
              if p.reply.isSome then w
              else
                let (reply, w') := w.servePatch cfg p
                let patches := e.patches.set request { p with reply := some reply }
                { w' with editors := w.editors.set editor { e with patches } }
          | none => w
  | .reply editor request =>
      match w.editors[editor]? with
      | none => w
      | some e => match e.patches[request]?.bind Patch.reply with
          | some (.note view) => w.withTab editor (Tab.patched request view.revision ⟨e, w.storage⟩)
          | some (.error code message) =>
              w.withTab editor (Tab.patchFailed request (some ⟨code, message⟩) ⟨e, w.storage⟩)
          | _ => w
  | .serveLost request => match w.lost[request]? with
      | some p => { (w.servePatch cfg p).2 with lost := w.lost.eraseIdx request }
      | none => w

end World

end AfkClient.NoteEditor

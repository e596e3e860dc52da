import Mathlib.Logic.Function.Basic
import AfkClient.Library.Run
import AfkClient.Model.Client

/-! The bell of the website's updates: the hook in each tab (`useWebsiteUpdates.ts`) and the routes
that it calls (`profile/updates.ts`). Of an announcement only the id counts. -/

namespace AfkClient.WebsiteUpdates

structure WebsiteUpdateResponse where
  unread : Bool
  /-- `announcement.id` -/
  announcementId : String
  deriving DecidableEq, Repr

/-- An answer that is not ok. -/
structure Refusal where
  statusCode : ℕ
  error : String
  deriving DecidableEq, Repr

abbrev Answer := Except Refusal WebsiteUpdateResponse

inductive Fetch where
  /-- `GET /profile/updates`, with the `revision` at that time -/
  | updates (startedAt : ℕ)
  /-- `PATCH /profile/updates/read` -/
  | read (announcementId : String)
  deriving DecidableEq, Repr

/-- A request of `apiFetch`. The server answers it at most once, and it is settled once: by that
answer, or without one. -/
structure Call where
  /-- The effect that sent it. -/
  effect : ℕ
  /-- `x-profile-owner` -/
  owner : String
  fetch : Fetch
  answer : Option Answer := none
  settled : Bool := false

/-! ### Server -/

structure Server where
  /-- `websiteUpdate.id` -/
  announcementId : String
  /-- The ids that it had before. -/
  retired : List String := []
  lastSeenWebsiteUpdate : String → Option String := fun _ => none

namespace Server

def getWebsiteUpdate (server : Server) (userId : String) : WebsiteUpdateResponse where
  unread := server.lastSeenWebsiteUpdate userId ≠ some server.announcementId
  announcementId := server.announcementId

def readWebsiteUpdate (server : Server) (userId announcementId : String) : Answer × Server :=
  -- A stale tab must not acknowledge a newer announcement it never displayed.
  if announcementId ≠ server.announcementId then
    (.error ⟨409, "Website update changed; please reload"⟩, server)
  else
    (.ok ⟨false, server.announcementId⟩,
      { server with
        lastSeenWebsiteUpdate :=
          Function.update server.lastSeenWebsiteUpdate userId (some announcementId) })

/-- `updateReadSchema` -/
def validId (announcementId : String) : Bool :=
  1 ≤ Client.utf16Length announcementId && Client.utf16Length announcementId ≤ 120

/-- The hooks and handlers of the two routes, for the session of the request's cookie; `csrf` if its
token is that of the session. -/
def answer (server : Server) (session : Option String) (csrf : Bool) (call : Call) :
    Answer × Server :=
  match session with
  | none => (.error ⟨401, "Unauthorized"⟩, server)
  | some userId =>
      if call.owner ≠ userId then (.error ⟨409, "Profile session changed"⟩, server)
      else
        match call.fetch with
        | .updates _ => (.ok (server.getWebsiteUpdate userId), server)
        | .read announcementId =>
            if !csrf then (.error ⟨403, "Invalid or missing CSRF token"⟩, server)
            else if !validId announcementId then (.error ⟨400, "Validation failed"⟩, server)
            else server.readWebsiteUpdate userId announcementId

/-- A release with a new announcement. -/
def publish (server : Server) (announcementId : String) : Server :=
  { server with announcementId, retired := server.announcementId :: server.retired }

end Server

/-! ### Tab -/

/-- `UpdatesRun`, with the variables of its effect. -/
structure UpdatesRun where
  userId : String
  isOpen : Bool := false
  refreshing : Bool := false
  saving : Bool := false
  revision : ℕ := 0
  response : Option WebsiteUpdateResponse := none
  pendingRead : Option String := none

/-- The state of the hook in one tab. -/
structure Tab where
  userId : Option String := none
  data : Option WebsiteUpdateResponse := none
  isOpen : Bool := false
  error : Option String := none
  loading : Bool := false
  /-- `runRef.current` -/
  run : Option UpdatesRun := none
  /-- How many effects there were; the last one is active. -/
  effects : ℕ := 0
  /-- All requests that were sent. -/
  calls : List Call := []

namespace Tab

def send (run : UpdatesRun) (fetch : Fetch) (s : Tab) : Tab :=
  { s with calls := s.calls ++ [{ effect := s.effects, owner := run.userId, fetch }] }

def setData (run : UpdatesRun) (response : Option WebsiteUpdateResponse) (s : Tab) : Tab :=
  { s with run := some { run with response }, data := response }

/-- Opening acknowledges the update immediately, even on a slow network. -/
def read (s : Tab) : Tab :=
  match s.run with
  | none => s
  | some run =>
      match run.response with
      | none => s
      | some response =>
          if run.saving || (!response.unread && run.pendingRead.getD "" = "") then s
          else
            { s with error := none }.setData
              { run with
                saving := true
                revision := run.revision + 1
                pendingRead := some response.announcementId }
              (some { response with unread := false })
            |>.send run (.read response.announcementId)

def refresh (s : Tab) : Tab :=
  match s.run with
  | none => s
  | some run =>
      if run.refreshing || run.saving then s
      else
        { s with
          run := some { run with refreshing := true }
          loading := if run.response.isNone then true else s.loading
        }.send run (.updates run.revision)

/-- The rest of `read`. -/
def readEnd (run : UpdatesRun) (result : Option Answer) (s : Tab) : Tab :=
  let run := { run with saving := false }
  match result with
  | some (.ok _) => { s with run := some { run with pendingRead := none }, error := none }
  | some (.error ⟨409, _⟩) =>
      { s with error := some "Die Ankündigung wurde aktualisiert. Bitte erneut laden." }.setData
        { run with pendingRead := none } none
  | _ =>
      { s with
        run := some run
        error := some
          "Der Gelesen-Status konnte nicht gespeichert werden. Bitte erneut versuchen." }

/-- What `refresh` makes of a response. -/
def refreshed (run : UpdatesRun) (result : WebsiteUpdateResponse) (s : Tab) : Tab :=
  -- Keep an unacknowledged write queued across a temporary outage.
  if run.pendingRead = some result.announcementId then
    { s with error := none }.setData run (some { result with unread := false })
  else { s with error := none }.setData { run with pendingRead := none } (some result)

/-- The rest of `refresh`. -/
def refreshEnd (run : UpdatesRun) (startedAt : ℕ) (result : Option Answer) (s : Tab) : Tab :=
  let run := { run with refreshing := false }
  let s := { s with run := some run, loading := false }
  match result with
  | some (.ok result) =>
      if run.revision ≠ startedAt then s
      else if run.isOpen then (s.refreshed run result).read
      else s.refreshed run result
  | _ =>
      if run.response.isNone then
        { s with error := some "Die Updates konnten nicht geladen werden. Bitte erneut versuchen." }
      else s

/-- The promise of a request settles; what awaits it in an effect that was cleaned up has no
effect. -/
def settle (i : ℕ) (result : Call → Option (Option Answer)) (s : Tab) : Tab :=
  match s.calls[i]? with
  | none => s
  | some call =>
      match result call with
      | none => s
      | some answer =>
          if call.settled then s
          else
            let s := { s with calls := s.calls.set i { call with settled := true } }
            match s.run with
            | none => s
            | some run =>
                if call.effect ≠ s.effects then s
                else
                  match call.fetch with
                  | .updates startedAt => s.refreshEnd run startedAt answer
                  | .read _ => s.readEnd run answer

/-- The effect for another user. -/
def signIn (userId : Option String) (s : Tab) : Tab :=
  if userId = s.userId then s
  else
    { s with
      userId
      data := none
      isOpen := false
      error := none
      run := (userId.filter (· ≠ "")).map fun userId => { userId }
      effects := s.effects + 1
    }.refresh

def readOrRefresh (s : Tab) : Tab := if s.data.isSome then s.read else s.refresh

/-- `show` -/
def onShow (s : Tab) : Tab :=
  match s.run with
  | none => s
  | some run =>
      if some run.userId ≠ s.userId then s
      else { s with run := some { run with isOpen := true }, isOpen := true }.readOrRefresh

/-- `close` -/
def onClose (s : Tab) : Tab :=
  { s with run := s.run.map ({ · with isOpen := false }), isOpen := false }

/-- `retry`, whose button is in the dialog, below an error. -/
def onRetry (s : Tab) : Tab :=
  if !s.isOpen || s.error.isNone then s
  else
    match s.run with
    | none => s
    | some run => if some run.userId ≠ s.userId then s else s.readOrRefresh

inductive Event where
  | signIn (userId : Option String)
  /-- of a visible window -/
  | onFocus
  | onShow
  | onClose
  | onRetry
  /-- The answer of the server is there. -/
  | respond (call : ℕ)
  /-- It will not come any more: the network, the deadline or an abort. -/
  | fail (call : ℕ)
  deriving DecidableEq, Repr

def step (s : Tab) : Event → Tab
  | .signIn userId => s.signIn userId
  | .onFocus => s.refresh
  | .onShow => s.onShow
  | .onClose => s.onClose
  | .onRetry => s.onRetry
  | .respond call => s.settle call fun call => call.answer.map some
  | .fail call => s.settle call fun _ => some none

/-- The server has handled a request. -/
def answered (i : ℕ) (call : Call) (answer : Answer) (s : Tab) : Tab :=
  { s with calls := s.calls.set i { call with answer := some answer } }

end Tab

/-! ### Website -/

structure Website where
  server : Server
  tabs : ℕ → Tab := fun _ => {}

inductive Event where
  | tab (tab : ℕ) (event : Tab.Event)
  /-- The server handles a request, whatever session the browser has by then. -/
  | handle (tab call : ℕ) (session : Option String) (csrf : Bool)
  | publish (announcementId : String)
  deriving DecidableEq, Repr

namespace Website

def handle (tab i : ℕ) (session : Option String) (csrf : Bool) (s : Website) : Website :=
  match (s.tabs tab).calls[i]? with
  | none => s
  | some call =>
      if call.answer.isSome then s
      else
        let (answer, server) := s.server.answer session csrf call
        { server, tabs := Function.update s.tabs tab ((s.tabs tab).answered i call answer) }

def step (s : Website) : Event → Website
  | .tab tab event => { s with tabs := Function.update s.tabs tab ((s.tabs tab).step event) }
  | .handle tab call session csrf => s.handle tab call session csrf
  | .publish announcementId => { s with server := s.server.publish announcementId }

end Website

end AfkClient.WebsiteUpdates

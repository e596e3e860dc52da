import AfkClient.Model.Profile

/-! The dashboard preferences in the browser. Edits are shown at once, queued, and sent one
after the other, while reads of the profile come and go. -/

namespace AfkClient.Dashboard

open Profile (DashboardPreferences)

/-! ### Patches -/

structure Blur where
  accountId : String
  value : Bool
  deriving DecidableEq, Repr

structure Collapse where
  uploaderId : String
  value : Bool
  deriving DecidableEq, Repr

structure Patch where
  accountOrder : Option (List String) := none
  uploaderOrder : Option (List String) := none
  blur : Option Blur := none
  collapse : Option Collapse := none
  deriving DecidableEq, Repr

def membership (ids : List String) (id : String) (value : Bool) : List String :=
  if value then (ids ++ [id]).eraseDups else ids.filter (· ≠ id)

def apply (preferences : DashboardPreferences) (patch : Patch) : DashboardPreferences where
  accountOrder := patch.accountOrder.getD preferences.accountOrder
  uploaderOrder := patch.uploaderOrder.getD preferences.uploaderOrder
  blurredAccountIds := patch.blur.elim preferences.blurredAccountIds fun blur =>
    membership preferences.blurredAccountIds blur.accountId blur.value
  collapsedUploaderIds := patch.collapse.elim preferences.collapsedUploaderIds fun collapse =>
    membership preferences.collapsedUploaderIds collapse.uploaderId collapse.value

/-! ### The hook -/

/-- How a request ends. -/
inductive Answer where
  | ok (initialized : Bool) (preferences : DashboardPreferences)
  /-- An `ApiError`. -/
  | apiError (status : ℕ) (message : String)
  /-- The connection fails, or there are no preferences in the response. -/
  | failed
  deriving DecidableEq, Repr

/-- The answers that take a patch from the queue although it was not saved. -/
def rejections : List ℕ := [400, 401, 403, 404, 409]

def Answer.failure : Answer → String
  | .apiError _ message => message
  | _ => "Verbindung fehlgeschlagen"

structure Run where
  active : Bool := true
  confirmed : Option DashboardPreferences := none
  pending : List Patch := []
  saving : Bool := false
  version : ℕ := 0
  deriving DecidableEq, Repr

/-- A call of `refresh` that awaits its read or, behind it, the import of older preferences. -/
structure Refresh where
  id : ℕ
  version : ℕ
  importing : Bool := false
  deriving DecidableEq, Repr

/-- The hook of one user, with the requests that are under way. -/
structure Hook where
  run : Run := {}
  preferences : Option DashboardPreferences := none
  saving : Bool := false
  error : Option String := none
  /-- The number of refreshes so far. -/
  started : ℕ := 0
  refreshes : List Refresh := []
  /-- The bodies of the `PATCH` requests that the calls of `flush` await. -/
  flushes : List Patch := []
  /-- The bodies of all `PATCH` requests. -/
  sent : List Patch := []
  deriving DecidableEq, Repr

namespace Hook

def refresh (h : Hook) : Hook :=
  if ! h.run.active then h
  else { h with
    started := h.started + 1, refreshes := h.refreshes ++ [{ id := h.started, version := h.run.version }] }

/-- The queue is replayed over preferences of the server. -/
def replay (h : Hook) : Hook :=
  { h with preferences := h.run.confirmed.map (h.run.pending.foldl apply) }

/-- A request of the refresh is answered; `legacy` says whether older preferences are stored. -/
def refreshed (h : Hook) (id : ℕ) (legacy : Bool) (answer : Answer) : Hook :=
  match h.refreshes.find? (·.id = id) with
  | none => h
  | some call =>
      let rest := h.refreshes.filter (·.id ≠ id)
      if ! h.run.active then { h with refreshes := rest }
      else
        match answer with
        | .ok initialized preferences =>
            if ! call.importing && ! initialized && legacy then
              { h with refreshes := rest ++ [{ call with importing := true }] }
            -- A completed write is newer than a refresh started before that write.
            else if call.version ≠ h.run.version then { h with refreshes := rest }
            else
              let h := { h with refreshes := rest, run := { h.run with confirmed := some preferences } }
              { h.replay with error := if h.run.pending = [] then none else h.error }
        | failure =>
            { h with
              refreshes := rest
              error := some ("Ansicht konnte nicht geladen werden: " ++ failure.failure) }

/-- The end of `flush`. -/
def finish (h : Hook) : Hook := { h with run := { h.run with saving := false }, saving := false }

/-- The loop of `flush`, in front of its next request. -/
def send (h : Hook) : Hook :=
  match h.run.pending with
  | patch :: _ => { h with flushes := h.flushes ++ [patch], sent := h.sent ++ [patch] }
  | [] => { h with error := none }.finish

def flush (h : Hook) : Hook :=
  if ! h.run.active || h.run.saving || h.run.confirmed.isNone then h
  else { h with run := { h.run with saving := true }, saving := true }.send

/-- A `PATCH` request is answered. -/
def written (h : Hook) (index : ℕ) (answer : Answer) : Hook :=
  match h.flushes[index]? with
  | none => h
  | some _ =>
      let h := { h with flushes := h.flushes.eraseIdx index }
      if ! h.run.active then { h with run := { h.run with saving := false } }
      else
        match answer with
        | .ok _ preferences =>
            let run := { h.run with
              pending := h.run.pending.tail, confirmed := some preferences, version := h.run.version + 1 }
            { h with run }.replay.send
        | .apiError status message =>
            let pending := if status ∈ rejections then h.run.pending.tail else h.run.pending
            { h with
              run := { h.run with pending }
              error := some ("Ansicht konnte nicht gespeichert werden: " ++ message) }.finish
        | .failed =>
            { h with
              error := some ("Ansicht konnte nicht gespeichert werden: " ++ Answer.failed.failure) }.finish

def update (h : Hook) (patch : Patch) : Hook :=
  if ! h.run.active || h.run.confirmed.isNone then h
  else { h with run := { h.run with pending := h.run.pending ++ [patch] } }.replay.flush

def retry (h : Hook) : Hook := if h.run.pending ≠ [] then h.flush else h.refresh

/-- The user changes or the page is left. -/
def unmount (h : Hook) : Hook := { h with run := { h.run with active := false } }

/-- The effect of the user's first page. -/
def mount : Hook := ({} : Hook).refresh

end Hook

inductive Input where
  | update (patch : Patch)
  /-- `refresh`, also when the window gains the focus. -/
  | refresh
  | retry
  | refreshed (id : ℕ) (legacy : Bool) (answer : Answer)
  | written (index : ℕ) (answer : Answer)
  | unmount
  deriving DecidableEq, Repr

def Hook.step (h : Hook) : Input → Hook
  | .update patch => h.update patch
  | .refresh => h.refresh
  | .retry => h.retry
  | .refreshed id legacy answer => h.refreshed id legacy answer
  | .written index answer => h.written index answer
  | .unmount => h.unmount

end AfkClient.Dashboard

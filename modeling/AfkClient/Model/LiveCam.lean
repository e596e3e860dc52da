import AfkClient.Model.Client
import Mathlib.Logic.Function.Basic

/-! The live cameras: one upstream stream per account, shared by its viewers. The gaps
between the pieces of a stream's code, in which viewers come and go, are steps of their own. -/

namespace AfkClient

inductive ConnectCode where
  | canceled | unknown | invalidArgument | deadlineExceeded | notFound | alreadyExists
  | permissionDenied | resourceExhausted | failedPrecondition | aborted | outOfRange
  | unimplemented | internal | unavailable | dataLoss | unauthenticated
  deriving DecidableEq, Repr

structure PovRender where
  imageMimeType : String
  imageBase64 : String
  deriving DecidableEq, Repr

structure BotPovFrame where
  render : Option PovRender
  deriving DecidableEq, Repr

structure CameraFrame where
  image : String
  mime : Option String := none
  deriving DecidableEq, Repr

/-- What a viewer is called with; the error of a failing viewer is its own. -/
inductive Notice where
  | frame (frame : CameraFrame)
  | loading
  | error (upstream : Option ConnectCode)
  deriving DecidableEq, Repr

/-- The message for a frame, if it carries an image of a permitted kind and size. -/
def BotPovFrame.message (frame : BotPovFrame) : Option CameraFrame :=
  match frame.render with
  | none => none
  | some render =>
      if !(["image/png", "image/jpeg"].contains render.imageMimeType) || render.imageBase64 = ""
          || 2 * 1024 * 1024 < Client.utf16Length render.imageBase64 then none
      else some ⟨render.imageBase64,
        if render.imageMimeType = "image/jpeg" then some "image/jpeg" else none⟩

/-- Errors after which a camera is not reopened. -/
def ConnectCode.final (code : ConnectCode) : Bool :=
  [unauthenticated, permissionDenied, invalidArgument, unimplemented].contains code

/-- Where the code of a stream stands. -/
inductive CamPhase where
  /-- It waits for the stream before it. -/
  | waiting
  /-- It waits for the next frame of its source. -/
  | reading
  /-- It left the loop over the frames, and the source is being closed. -/
  | returning
  | pausing
  /-- It threw, and the handler has not run yet. -/
  | failed (code : ConnectCode)
  /-- It returned, or its error was handled; the cleanup has not run yet. -/
  | settled
  | ended
  deriving DecidableEq, Repr

/-- Why a stream was aborted first. -/
inductive AbortCause where
  | abandoned | closed | finished
  deriving DecidableEq, Repr

structure CamStream where
  account : String
  previous : Option ℕ
  viewers : List ℕ := []
  abort : Option AbortCause := none
  phase : CamPhase := .waiting
  deriving DecidableEq, Repr

namespace CamStream

def aborted (c : CamStream) : Bool := c.abort.isSome

/-- `abort.abort()`; of several calls only the first counts. -/
def abortWith (c : CamStream) (cause : AbortCause) : CamStream :=
  { c with abort := c.abort.or (some cause) }

def join (c : CamStream) (viewer : ℕ) : CamStream :=
  { c with viewers := if viewer ∈ c.viewers then c.viewers else c.viewers ++ [viewer] }

/-- The last viewer to leave aborts the stream. -/
def without (c : CamStream) (gone : ℕ → Bool) : CamStream :=
  let c := { c with viewers := c.viewers.filter (! gone ·) }
  if c.viewers = [] then c.abortWith .abandoned else c

/-- The condition of the loop that opens the source. -/
def resume (c : CamStream) : CamStream :=
  { c with phase := if c.aborted || c.viewers = [] then .settled else .reading }

/-- The source is open: it was called, and its iterator is not done. -/
def isOpen (c : CamStream) : Bool := c.phase = .reading || c.phase = .returning

end CamStream

/-- A call of `subscribe`, with the phase of the stream it found. -/
structure Subscription where
  stream : ℕ
  viewer : ℕ
  joined : CamPhase
  left : Bool := false
  deriving DecidableEq, Repr

structure LiveCamStreams where
  /-- All streams so far; a stream is told by its place. -/
  streams : List CamStream := []
  /-- The stream of an account, `this.streams`. -/
  current : String → Option ℕ := fun _ => none
  subscriptions : List Subscription := []
  /-- The calls of viewers so far, each with its stream and viewer. -/
  notices : List (ℕ × ℕ × Notice) := []

inductive CamInput where
  | subscribe (account : String) (viewer : ℕ)
  /-- The call of the function that the `n`th call of `subscribe` returned. -/
  | unsubscribe (n : ℕ)
  | close
  /-- The stream before `k` is done. -/
  | start (k : ℕ)
  /-- A frame of the source; `broken` are the viewers that throw. -/
  | frame (k : ℕ) (frame : BotPovFrame) (broken : ℕ → Bool)
  | sourceEnded (k : ℕ)
  | sourceFailed (k : ℕ) (code : ConnectCode)
  | sourceClosed (k : ℕ)
  | elapsed (k : ℕ)
  | interrupted (k : ℕ)
  /-- The handler of `catch` runs. -/
  | caught (k : ℕ)
  /-- The handler of `finally` runs. -/
  | cleaned (k : ℕ)

/-- The stream whose code an input runs. -/
def CamInput.stream : CamInput → Option ℕ
  | .start k | .frame k _ _ | .sourceEnded k | .sourceFailed k _ | .sourceClosed k | .elapsed k
  | .interrupted k | .caught k | .cleaned k => some k
  | _ => none

namespace LiveCamStreams

def modify (s : LiveCamStreams) (k : ℕ) (f : CamStream → CamStream) : LiveCamStreams :=
  { s with streams := s.streams.modify k f }

/-- Calls the viewers of a stream, each with what is for it. -/
def tell (s : LiveCamStreams) (k : ℕ) (viewers : List ℕ) (notices : ℕ → List Notice) :
    LiveCamStreams :=
  { s with notices := s.notices ++ viewers.flatMap fun v => (notices v).map (k, v, ·) }

/-- The stream that `subscribe` joins; an aborted one is replaced. -/
def enter (s : LiveCamStreams) (account : String) : LiveCamStreams × ℕ :=
  match (s.current account).filter fun k => s.streams[k]?.any (! ·.aborted) with
  | some k => (s, k)
  | none =>
      ({ s with
          streams := s.streams ++ [{ account := account, previous := s.current account }]
          current := Function.update s.current account (some s.streams.length) },
        s.streams.length)

def subscribe (s : LiveCamStreams) (account : String) (viewer : ℕ) : LiveCamStreams :=
  let (s, k) := s.enter account
  let joined := (s.streams[k]?.map (·.phase)).getD .ended
  { s.modify k (·.join viewer) with
    subscriptions := s.subscriptions ++ [{ stream := k, viewer := viewer, joined := joined }] }

def unsubscribe (s : LiveCamStreams) (n : ℕ) : LiveCamStreams :=
  match s.subscriptions[n]? with
  | some sub =>
      { s.modify sub.stream (·.without (· = sub.viewer)) with
        subscriptions := s.subscriptions.map fun other =>
          if other.stream = sub.stream ∧ other.viewer = sub.viewer then { other with left := true }
          else other }
  | none => s

def close (s : LiveCamStreams) : LiveCamStreams :=
  { s with streams := s.streams.mapIdx fun k c =>
      if s.current c.account = some k then c.abortWith .closed else c }

/-- A frame reaches all viewers; those who throw are given their error and removed. -/
def deliver (s : LiveCamStreams) (k : ℕ) (c : CamStream) (frame : CameraFrame)
    (broken : ℕ → Bool) : LiveCamStreams :=
  let s := s.tell k c.viewers fun v => .frame frame :: if broken v then [.error none] else []
  s.modify k fun c =>
    let c := c.without broken
    if c.viewers = [] then { c with phase := .returning } else c

/-- Viewers stay attached while the camera is reopened. -/
def retry (s : LiveCamStreams) (k : ℕ) (c : CamStream) : LiveCamStreams :=
  (s.tell k c.viewers fun _ => [.loading]).modify k fun c => { c with phase := .pausing }

def setPhase (s : LiveCamStreams) (k : ℕ) (phase : CamPhase) : LiveCamStreams :=
  s.modify k fun c => { c with phase := phase }

def cleanUp (s : LiveCamStreams) (k : ℕ) (account : String) : LiveCamStreams :=
  { s.modify k (fun c => { c.abortWith .finished with phase := .ended }) with
    current := if s.current account = some k then Function.update s.current account none
      else s.current }

/-- The next piece of the code of a stream `c` at `k`. -/
def piece (s : LiveCamStreams) (k : ℕ) (c : CamStream) (i : CamInput) : LiveCamStreams :=
  match c.phase, i with
  | .waiting, .start _ =>
      if c.previous.all fun p => s.streams[p]?.any (·.phase = .ended) then s.modify k (·.resume)
      else s
  | .reading, .frame _ frame broken =>
      if c.aborted then s.setPhase k .returning
      else match frame.message with
        | some message => s.deliver k c message broken
        | none => s
  | .reading, .sourceEnded _ => if c.aborted then s.setPhase k .settled else s.retry k c
  | .reading, .sourceFailed _ code =>
      if c.aborted then s.setPhase k .settled
      else if code.final then s.setPhase k (.failed code)
      else s.retry k c
  | .returning, .sourceClosed _ => s.setPhase k .settled
  | .pausing, .elapsed _ => s.modify k (·.resume)
  | .pausing, .interrupted _ => if c.aborted then s.setPhase k (.failed .canceled) else s
  | .failed code, .caught _ =>
      (if c.aborted then s else s.tell k c.viewers fun _ => [.error (some code)]).setPhase k .settled
  | .settled, .cleaned _ => s.cleanUp k c.account
  | _, _ => s

def step (s : LiveCamStreams) (i : CamInput) : LiveCamStreams :=
  match i with
  | .subscribe account viewer => s.subscribe account viewer
  | .unsubscribe n => s.unsubscribe n
  | .close => s.close
  | i =>
      match i.stream with
      | some k =>
          match s.streams[k]? with
          | some c => s.piece k c i
          | none => s
      | none => s

end LiveCamStreams

end AfkClient

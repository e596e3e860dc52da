import AfkClient.Library.Dictionary
import AfkClient.Library.Text
import Mathlib.Data.Int.Notation

/-! The reads of the browser's API client. Requests that are running are shared between the
callers of one path, and the histories that were read are kept until they are outdated. -/

namespace AfkClient.ApiReads

/-- The part of a response body that `get` reads: `Date.parse` of its `end`, when that is a date,
and its `bucketMs`. -/
structure Body where
  endMs : Option ℤ := none
  bucketMs : Option ℤ := none
  content : Option String := none
  deriving DecidableEq, Repr

inductive Failure where
  | fetch
  | apiError (status : ℕ)
  deriving DecidableEq, Repr

/-- What the promise of `apiFetch` becomes. -/
inductive Answer where
  | value (body : Body)
  | error (failure : Failure)
  deriving DecidableEq, Repr

/-- How far a request has come: `fetch` is running, the body is being read, the promise of
`apiFetch` is settled, `then` has run, `finally` has run. -/
inductive Phase where
  | sent
  | responded (status : ℕ)
  | answered (answer : Answer)
  | handled (answer : Answer)
  | finished (answer : Answer)
  deriving DecidableEq, Repr

structure Request where
  path : String
  /-- `readGeneration` when it was sent -/
  generation : ℕ
  phase : Phase := .sent
  deriving DecidableEq, Repr

inductive Outcome where
  | pending
  | resolved (body : Body)
  | aborted
  | rejected (failure : Failure)
  deriving DecidableEq, Repr

/-- A call of `get` and the promise that it returned. -/
structure Subscriber where
  path : String
  signal : Option ℕ
  /-- The request whose response it waits for. -/
  request : Option ℕ
  /-- The value that was in the cache. -/
  cached : Option Body := none
  outcome : Outcome := .pending
  deriving DecidableEq, Repr

/-- The listener of a signal. -/
def Subscriber.abort (signal : ℕ) (sub : Subscriber) : Subscriber :=
  if sub.signal = some signal ∧ sub.outcome = .pending then { sub with outcome := .aborted } else sub

/-- The value is that of a request. -/
structure Entry where
  expiresAt : ℤ
  value : Body
  request : ℕ
  deriving DecidableEq, Repr

structure Api where
  pendingReads : Dictionary String ℕ := .empty
  historyCache : Dictionary String Entry := .empty
  readGeneration : ℕ := 0
  /-- All requests that `get` has sent. -/
  requests : List Request := []
  subscribers : List Subscriber := []
  /-- The signals that were aborted. -/
  aborted : List ℕ := []
  deriving DecidableEq

namespace Api

def clearApiReadCache (s : Api) : Api :=
  { s with readGeneration := s.readGeneration + 1, pendingReads := .empty, historyCache := .empty }

/-- The paths that `invalidateAccountHistory` deletes. -/
def ofAccount (accountId path : String) : Bool :=
  s!"/minecraft/accounts/{accountId}/earnings/history".toList.isPrefixOf path.toList

def invalidateAccountHistory (s : Api) (accountId : String) : Api :=
  { s with
    readGeneration := s.readGeneration + 1
    historyCache := s.historyCache.deleteWhere (ofAccount accountId ·.1)
    pendingReads := s.pendingReads.deleteWhere (ofAccount accountId ·.1) }

/-! ### `apiFetch` -/

/-- Before a mutating request is sent. -/
def mutate (s : Api) : Api := s.clearApiReadCache

/-- The response of any request is there. -/
def received (s : Api) (mutating : Bool) (status : ℕ) : Api :=
  if mutating || status = 401 then s.clearApiReadCache else s

def setPhase (s : Api) (r : ℕ) (phase : Phase) : Api :=
  { s with requests := s.requests.modify r ({ · with phase }) }

/-- The response of a request of `get`. -/
def respond (s : Api) (r : ℕ) (status : ℕ) : Api :=
  match s.requests[r]? with
  | some ⟨_, _, .sent⟩ =>
      (s.received false status).setPhase r
        (if status = 204 then .answered (.value {}) else .responded status)
  | _ => s

/-- No response has come. -/
def fail (s : Api) (r : ℕ) : Api :=
  match s.requests[r]? with
  | some ⟨_, _, .sent⟩ => s.setPhase r (.answered (.error .fetch))
  | _ => s

/-- The body of a response was read. -/
def read (s : Api) (r : ℕ) (body : Body) : Api :=
  match s.requests[r]? with
  | some ⟨_, _, .responded status⟩ =>
      s.setPhase r (.answered
        (if 200 ≤ status ∧ status < 300 then .value body else .error (.apiError status)))
  | _ => s

/-! ### `get` -/

/-- `/^\/minecraft\/accounts\/[^/]+\/earnings\/history(?:\?|$)/` -/
def historyPath : Re :=
  .seqs [.bos, .lit "/minecraft/accounts/", .some1 (.set (· != '/')), .lit "/earnings/history",
    .alt (.lit "?") .eos]

def isHistory (path : String) : Bool := historyPath.test path.toList

/-- A history is kept when it is not outdated already. -/
def keep (s : Api) (path : String) (r : ℕ) (body : Body) (now : ℤ) : Api :=
  match body.endMs with
  | some endMs =>
      if endMs + body.bucketMs.getD 0 > now then
        { s with
          historyCache := (s.historyCache.evict 256).set path
            { expiresAt := endMs + body.bucketMs.getD 0, value := body, request := r } }
      else s
  | none => s

/-- The callback of `then`. -/
def handle (s : Api) (r : ℕ) (now : ℤ) : Api :=
  match s.requests[r]? with
  | some ⟨path, generation, .answered (.value body)⟩ =>
      (if generation = s.readGeneration ∧ isHistory path then s.keep path r body now else s).setPhase r
        (.handled (.value body))
  | some ⟨_, _, .answered (.error failure)⟩ => s.setPhase r (.handled (.error failure))
  | _ => s

/-- The callback of `finally`. -/
def finish (s : Api) (r : ℕ) : Api :=
  match s.requests[r]? with
  | some ⟨path, _, .handled answer⟩ =>
      { s with
        pendingReads :=
          if s.pendingReads.get? path = some r then s.pendingReads.delete path else s.pendingReads
      }.setPhase r (.finished answer)
  | _ => s

def subscribe (s : Api) (subscriber : Subscriber) : Api :=
  { s with subscribers := s.subscribers ++ [subscriber] }

def send (s : Api) (path : String) : Api :=
  { s with
    requests := s.requests ++ [{ path, generation := s.readGeneration }]
    pendingReads := s.pendingReads.set path s.requests.length }

/-- The entry of the path that is not outdated. -/
def cached (s : Api) (path : String) (now : ℤ) : Option Entry :=
  (s.historyCache.get? path).filter (·.expiresAt > now)

/-- Without an entry, the request of the path that is running is joined, or one is sent. -/
def request (s : Api) (path : String) (signal : Option ℕ) : Api :=
  match s.pendingReads.get? path with
  | some r => s.subscribe { path, signal, request := some r }
  | none => (s.send path).subscribe { path, signal, request := some s.requests.length }

def get (s : Api) (path : String) (signal : Option ℕ) (now : ℤ) : Api :=
  if signal.any (· ∈ s.aborted) then
    s.subscribe { path, signal, request := none, outcome := .aborted }
  else
    match s.cached path now with
    | some entry =>
        s.subscribe { path, signal, request := some entry.request, cached := some entry.value }
    | none => { s with historyCache := s.historyCache.delete path }.request path signal

def abort (s : Api) (signal : ℕ) : Api :=
  { s with
    aborted := signal :: s.aborted
    subscribers := s.subscribers.map (Subscriber.abort signal) }

/-- What a subscriber learns from the promise that it was given. -/
def due (s : Api) (sub : Subscriber) : Option Answer :=
  match sub.request, sub.cached with
  | none, _ => none
  | some _, some body => some (.value body)
  | some r, none =>
      match s.requests[r]? with
      | some ⟨_, _, .finished answer⟩ => some answer
      | _ => none

/-- The promise of a subscriber is settled. -/
def settle (s : Api) (sub : Subscriber) : Subscriber :=
  match sub.outcome, s.due sub with
  | .pending, some (.value body) =>
      if sub.signal.any (· ∈ s.aborted) then sub else { sub with outcome := .resolved body }
  | .pending, some (.error failure) => { sub with outcome := .rejected failure }
  | _, _ => sub

def deliver (s : Api) (k : ℕ) : Api := { s with subscribers := s.subscribers.modify k s.settle }

end Api

inductive Input where
  | get (path : String) (signal : Option ℕ) (now : ℤ)
  | abort (signal : ℕ)
  | clear
  | invalidate (accountId : String)
  | mutate
  /-- The response of a request that `get` has not sent. -/
  | received (mutating : Bool) (status : ℕ)
  | respond (r : ℕ) (status : ℕ)
  | fail (r : ℕ)
  | read (r : ℕ) (body : Body)
  | handle (r : ℕ) (now : ℤ)
  | finish (r : ℕ)
  | deliver (k : ℕ)
  deriving DecidableEq, Repr

def Api.step (s : Api) : Input → Api
  | .get path signal now => s.get path signal now
  | .abort signal => s.abort signal
  | .clear => s.clearApiReadCache
  | .invalidate accountId => s.invalidateAccountHistory accountId
  | .mutate => s.mutate
  | .received mutating status => s.received mutating status
  | .respond r status => s.respond r status
  | .fail r => s.fail r
  | .read r body => s.read r body
  | .handle r now => s.handle r now
  | .finish r => s.finish r
  | .deliver k => s.deliver k

end AfkClient.ApiReads

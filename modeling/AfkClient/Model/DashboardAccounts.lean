import Mathlib.Data.Int.Notation
import Mathlib.Data.Nat.Notation

/-! The account list of the dashboard (`DashboardPage.tsx`), with the shared reads of `api.ts` as far
as they concern it. Of an account only the fields count that are changed in place; instants are
milliseconds. The list of the website's users, which a load awaits too, only makes it fail. -/

namespace AfkClient.DashboardAccounts

structure Account where
  id : String
  imageUrl : Option String
  lastSellAt : Option ℤ
  deriving DecidableEq

/-- What the server would answer at each moment. A sale never moves `lastSellAt` back. -/
structure Server where
  accounts : ℕ → List Account
  sold : ∀ m m', m ≤ m' → ∀ a ∈ accounts m, ∀ b ∈ accounts m', a.id = b.id →
    ∀ at₁ ∈ a.lastSellAt, ∃ at₂ ∈ b.lastSellAt, at₁ ≤ at₂

/-- A request for the list; the answer is the moment of the server's state, or `none` if it failed. -/
structure Request where
  started : ℕ
  answer : Option (Option ℕ) := none

inductive LoadStatus
  | running
  | shown
  | failed
  deriving DecidableEq

structure Load where
  request : ℕ
  status : LoadStatus := .running

structure ImageUpdate where
  id : String
  imageUrl : String
  /-- The moment it was sent by the server. -/
  moment : ℕ

structure State where
  /-- The moment of the last event. -/
  now : ℕ := 0
  accounts : Option (List Account) := none
  lastSales : String → Option ℤ := fun _ => none
  pendingRead : Option ℕ := none
  requests : List Request := []
  loads : List Load := []
  /-- The image updates that were received. -/
  updates : List ImageUpdate := []
  /-- The request and the moment of the list that is shown. -/
  origin : Option (ℕ × ℕ) := none

inductive Event
  | load
  /-- Before and after any mutation, and when the socket is there again. -/
  | clearApiReadCache
  /-- The server acknowledged a deletion. -/
  | deleted (id : String)
  | respond (request : ℕ) (answer : Option ℕ)
  /-- Both reads of a load are there, or one of them failed. -/
  | settle (load : ℕ) (users : Bool)
  | updateImage (update : ImageUpdate)
  | updateSale (id : String) (lastSellAt : ℤ)

namespace State

/-- `get` of the list. -/
def get (s : State) : State × ℕ :=
  match s.pendingRead with
  | some request => (s, request)
  | none =>
      ({ s with
          requests := s.requests ++ [{ started := s.now }]
          pendingRead := some s.requests.length },
        s.requests.length)

def load (s : State) : State :=
  let (s, request) := s.get
  { s with loads := s.loads ++ [{ request := request }] }

/-- A request is answered once. -/
def respond (request : ℕ) (answer : Option ℕ) (s : State) : State :=
  match s.requests[request]? with
  | some ⟨started, none⟩ =>
      { s with
        requests := s.requests.set request ⟨started, some answer⟩
        pendingRead := if s.pendingRead = some request then none else s.pendingRead }
  | _ => s

/-- A sale that was seen live is newer than that of the account. -/
def withLive (lastSales : String → Option ℤ) (account : Account) : Account :=
  match lastSales account.id with
  | some liveSale =>
      if account.lastSellAt.all (· < liveSale) then { account with lastSellAt := some liveSale }
      else account
  | none => account

/-- The end of `load`; `users` if the other read did not fail. -/
def settle (server : Server) (load : ℕ) (users : Bool) (s : State) : State :=
  match s.loads[load]? with
  | some ⟨request, .running⟩ =>
      if users then
        match (s.requests[request]?).bind (·.answer) with
        | some (some moment) =>
            { s with
              accounts := some ((server.accounts moment).map (withLive s.lastSales))
              origin := some (request, moment)
              loads := s.loads.set load ⟨request, .shown⟩ }
        | some none => { s with loads := s.loads.set load ⟨request, .failed⟩ }
        | none => s
      else { s with loads := s.loads.set load ⟨request, .failed⟩ }
  | _ => s

def updateImage (update : ImageUpdate) (s : State) : State :=
  { s with
    accounts := s.accounts.map fun accounts => accounts.map fun account =>
      if account.id = update.id then { account with imageUrl := some update.imageUrl } else account
    updates := update :: s.updates }

def updateSale (id : String) (lastSellAt : ℤ) (s : State) : State :=
  if (s.lastSales id).any (lastSellAt ≤ ·) then s
  else
    { s with
      lastSales := fun other => if other = id then some lastSellAt else s.lastSales other
      accounts := s.accounts.map fun accounts => accounts.map fun account =>
        if account.id = id && account.lastSellAt.all (· < lastSellAt) then
          { account with lastSellAt := some lastSellAt }
        else account }

def step (server : Server) (s : State) : ℕ × Event → State
  | (now, event) =>
      let s := { s with now := now }
      match event with
      | .load => s.load
      | .clearApiReadCache => { s with pendingRead := none }
      | .deleted _ => { s with pendingRead := none }
      | .respond request answer => s.respond request answer
      | .settle load users => s.settle server load users
      | .updateImage update => s.updateImage update
      | .updateSale id lastSellAt => s.updateSale id lastSellAt

def run (server : Server) (s : State) (events : List (ℕ × Event)) : State :=
  events.foldl (step server) s

def ids (accounts : List Account) : List String := accounts.map Account.id

/-- The accounts that are shown. -/
def list (s : State) : List Account := s.accounts.getD []

end State

/-- What server and socket do: an answer is a state between request and arrival, a deleted account
stays away, and image updates arrive in order. -/
def Legal (server : Server) (s : State) (now : ℕ) : Event → Prop
  | .respond request (some moment) =>
      ∃ r, s.requests[request]? = some r ∧ r.started ≤ moment ∧ moment ≤ now
  | .deleted id => ∀ moment, now ≤ moment → id ∉ State.ids (server.accounts moment)
  | .updateImage update =>
      update.moment ≤ now ∧ (∀ old ∈ s.updates, old.moment ≤ update.moment) ∧
        ∃ account ∈ server.accounts update.moment,
          account.id = update.id ∧ account.imageUrl = some update.imageUrl
  | _ => True

def Legals (server : Server) : State → List (ℕ × Event) → Prop
  | _, [] => True
  | s, (now, event) :: events =>
      s.now ≤ now ∧ Legal server s now event ∧ Legals server (s.step server (now, event)) events

end AfkClient.DashboardAccounts

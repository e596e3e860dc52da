import AfkClient.Library.Run
import AfkClient.Library.Table
import Mathlib.Data.Finset.Basic

/-! Banned addresses (`security/ipBans.ts`): the table, its copy in memory, and the failed logins
that lead to a ban. A call runs up to its query, the database answers at any time, and the call
goes on at any time after that. -/

namespace AfkClient.IpBans

/-- An address; no address is empty. -/
structure Address where
  text : String
  nonempty : text ≠ ""
  deriving DecidableEq

structure BannedIp where
  ip : Address
  reason : Option String
  auto : Bool
  createdById : Option String
  deriving DecidableEq

/-- The options of a ban. -/
structure BanOptions where
  reason : Option String := none
  auto : Bool := false
  createdById : Option String := none
  deriving DecidableEq

/-- A call that awaits its query. -/
inductive Call
  | banIp (ip : Address) (opts : BanOptions)
  | unbanIp (ip : Address)
  /-- The ban inside `registerFailedLogin`. -/
  | registerFailedLogin (ip : Address) (opts : BanOptions)
  deriving DecidableEq

structure Waiting where
  id : ℕ
  call : Call
  deriving DecidableEq

/-- The database answered; `ok` if it reported success. -/
structure Answered where
  id : ℕ
  call : Call
  ok : Bool
  deriving DecidableEq

inductive Result
  | done
  /-- What `registerFailedLogin` returned. -/
  | triggered (value : Bool)
  | threw
  deriving DecidableEq

structure Bans where
  rows : Table BannedIp.ip
  bannedIps : Finset Address
  failedLogins : Address → Option (List ℤ) := fun _ => none
  calls : ℕ := 0
  waiting : List Waiting := []
  /-- In the order in which the database worked. -/
  answered : List Answered := []
  results : List (ℕ × Result) := []

def AUTO_BAN_THRESHOLD : ℕ := 15
def AUTO_BAN_WINDOW_MS : ℤ := 10 * 60 * 1000

/-- `loadBannedIps`, at the start. -/
def loadBannedIps (rows : Table BannedIp.ip) : Bans where
  rows := rows
  bannedIps := (rows.rows.map BannedIp.ip).toFinset

/-- An address that is missing or empty is `none`. -/
def Bans.isIpBanned (s : Bans) (ip : Option Address) : Bool := ip.any (· ∈ s.bannedIps)

/-! ### Queries -/

def upsert (rows : Table BannedIp.ip) (ip : Address) (opts : BanOptions) : Table BannedIp.ip :=
  if (rows.find? ip).isSome then
    rows.update ip (fun r => { r with reason := opts.reason, auto := opts.auto }) fun _ => rfl
  else rows.insert ⟨ip, opts.reason, opts.auto, opts.createdById⟩

/-- What a query does to the table. -/
def Call.query (rows : Table BannedIp.ip) : Call → Table BannedIp.ip
  | .banIp ip opts | .registerFailedLogin ip opts => upsert rows ip opts
  | .unbanIp ip => rows.delete ip

/-- How a query ends: it succeeds, or fails, and then it may have been carried out or not. -/
inductive Ending
  | succeeds
  | fails (carriedOut : Bool)
  deriving DecidableEq

/-! ### Calls -/

inductive Event
  | banIp (ip : Address) (opts : BanOptions)
  | unbanIp (ip : Address)
  | registerFailedLogin (ip : Option Address) (now : ℤ)
  | clearFailedLogins (ip : Option Address)
  /-- The database works on the query of a call. -/
  | query (id : ℕ) (ending : Ending)
  /-- A call goes on after its query. -/
  | resume (id : ℕ)

/-- A new call that awaits its query. -/
def Bans.await (s : Bans) (call : Call) : Bans :=
  { s with calls := s.calls + 1, waiting := s.waiting ++ [⟨s.calls, call⟩] }

def Bans.registerFailedLogin (s : Bans) (ip : Option Address) (now : ℤ) : Bans :=
  match ip with
  | none => { s with calls := s.calls + 1, results := s.results ++ [(s.calls, .triggered false)] }
  | some ip =>
      let hits := ((s.failedLogins ip).getD []).filter (now - · < AUTO_BAN_WINDOW_MS) ++ [now]
      let s := { s with failedLogins := Function.update s.failedLogins ip (some hits) }
      if AUTO_BAN_THRESHOLD ≤ hits.length ∧ ip ∉ s.bannedIps then
        s.await (.registerFailedLogin ip
          { auto := true, reason := some s!"Auto-banned after {hits.length} failed logins" })
      else { s with calls := s.calls + 1, results := s.results ++ [(s.calls, .triggered false)] }

def Bans.clearFailedLogins (s : Bans) : Option Address → Bans
  | none => s
  | some ip => { s with failedLogins := Function.update s.failedLogins ip none }

def Bans.query (s : Bans) (id : ℕ) (ending : Ending) : Bans :=
  match s.waiting.find? (·.id = id) with
  | none => s
  | some w =>
      { s with
        rows := if ending = .fails false then s.rows else w.call.query s.rows
        waiting := s.waiting.eraseP (·.id = id)
        answered := s.answered ++ [⟨id, w.call, ending = .succeeds⟩] }

/-- What a call does after its query, and its result. A failed unban goes on as if it had not
failed. -/
def Bans.goOn (s : Bans) (a : Answered) : Bans × Result :=
  match a.call with
  | .banIp ip _ => if a.ok then ({ s with bannedIps := insert ip s.bannedIps }, .done) else (s, .threw)
  | .unbanIp ip =>
      ({ s with
        bannedIps := s.bannedIps.erase ip
        failedLogins := Function.update s.failedLogins ip none }, .done)
  | .registerFailedLogin ip _ =>
      if a.ok then
        ({ s with
          bannedIps := insert ip s.bannedIps
          failedLogins := Function.update s.failedLogins ip none }, .triggered true)
      else (s, .threw)

def Bans.resume (s : Bans) (id : ℕ) : Bans :=
  match s.answered.find? (·.id = id) with
  | none => s
  | some a =>
      let (s, result) := { s with answered := s.answered.eraseP (·.id = id) }.goOn a
      { s with results := s.results ++ [(id, result)] }

def Bans.step (s : Bans) : Event → Bans
  | .banIp ip opts => s.await (.banIp ip opts)
  | .unbanIp ip => s.await (.unbanIp ip)
  | .registerFailedLogin ip now => s.registerFailedLogin ip now
  | .clearFailedLogins ip => s.clearFailedLogins ip
  | .query id ending => s.query id ending
  | .resume id => s.resume id

/-- All calls have finished. -/
def Bans.Finished (s : Bans) : Prop := s.waiting = [] ∧ s.answered = []

instance (s : Bans) : Decidable s.Finished := inferInstanceAs (Decidable (_ ∧ _))

end AfkClient.IpBans

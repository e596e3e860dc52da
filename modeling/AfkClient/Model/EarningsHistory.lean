import AfkClient.Library.Grouping
import AfkClient.Model.Earnings
import Mathlib.Data.Rat.Floor

/-! The aggregation of an account's earnings over completed intervals and the cache in front of
it. An entry holds the promise of its query, so it is reused while the query is still running. -/

namespace AfkClient.EarningsHistory

open Earnings (SellEarning)

inductive EarningsRange where
  | m30
  | h1
  | h6
  | h24
  deriving DecidableEq, Repr

def EarningsRange.text : EarningsRange → String
  | .m30 => "30m"
  | .h1 => "1h"
  | .h6 => "6h"
  | .h24 => "24h"

structure EarningsWindow where
  durationMs : ℤ
  bucketMs : ℤ
  deriving DecidableEq, Repr

def EARNINGS_WINDOWS : EarningsRange → EarningsWindow
  | .m30 => ⟨30 * 60000, 5 * 60000⟩
  | .h1 => ⟨60 * 60000, 5 * 60000⟩
  | .h6 => ⟨6 * 60 * 60000, 5 * 60000⟩
  | .h24 => ⟨24 * 60 * 60000, 5 * 60000⟩

/-- The keys of `EARNINGS_WINDOWS` -/
def ranges : List EarningsRange := [.m30, .h1, .h6, .h24]

/-- The completed interval's end, `Math.floor(now / bucketMs) * bucketMs` -/
def endOf (range : EarningsRange) (now : ℤ) : ℤ :=
  now / (EARNINGS_WINDOWS range).bucketMs * (EARNINGS_WINDOWS range).bucketMs

/-- A call of `aggregateEarningsHistory` -/
structure Query where
  id : String
  range : EarningsRange
  now : ℤ
  deriving DecidableEq, Repr

/-- The interval whose sales the query counts. -/
def Query.interval (q : Query) : ℤ × ℤ :=
  (endOf q.range q.now - (EARNINGS_WINDOWS q.range).durationMs, endOf q.range q.now)

/-- `ROUND` of the database: a half goes away from zero. -/
def ROUND (x : ℚ) : ℤ := if x < 0 then -⌊-x + 1 / 2⌋ else ⌊x + 1 / 2⌋

def cents (sale : SellEarning) : ℤ := ROUND (sale.amount * 100)

/-- The rows of the query: the number of an interval and its sales. -/
def Query.rows (q : Query) (sales : List SellEarning) : List (ℤ × ℤ) :=
  Grouping.groups
    (fun sale => (sale.createdAt - q.interval.1).tdiv (EARNINGS_WINDOWS q.range).bucketMs) cents
    (sales.filter fun sale =>
      sale.minecraftAccountId = q.id ∧ sale.createdAt ≥ q.interval.1 ∧ sale.createdAt < q.interval.2)

structure Point where
  at' : ℤ
  amount : ℚ
  deriving DecidableEq, Repr

structure History where
  range : EarningsRange
  start : ℤ
  endAt : ℤ
  bucketMs : ℤ
  total : ℚ
  points : List Point
  deriving DecidableEq, Repr

/-- The times are those of the dates. -/
def aggregateEarningsHistory (sales : List SellEarning) (id : String) (range : EarningsRange)
    (now : ℤ) : History :=
  let window := EARNINGS_WINDOWS range
  let q : Query := ⟨id, range, now⟩
  let count := (window.durationMs / window.bucketMs).toNat
  let cents := (q.rows sales).foldl (Grouping.add count) (List.replicate count 0)
  { range
    start := q.interval.1
    endAt := q.interval.2
    bucketMs := window.bucketMs
    total := (cents.foldl (· + ·) 0 : ℤ) / 100
    points := cents.mapIdx fun (index : ℕ) (value : ℤ) =>
      ⟨q.interval.1 + index * window.bucketMs, (value : ℚ) / 100⟩ }

/-- The promise `data` is named by the number of its query. -/
structure Entry where
  endAt : ℤ
  expiresAt : ℤ
  data : ℕ
  deriving DecidableEq, Repr

structure Cache where
  historyCache : Dictionary String Entry := .empty
  /-- All queries that were started. -/
  queries : List Query := []
  deriving DecidableEq

def MAX_HISTORY_CACHE_ENTRIES : ℕ := 256

def key (id : String) (range : EarningsRange) : String := id ++ ":" ++ range.text

namespace Cache

def invalidateEarningsHistory (c : Cache) (id : String) : Cache :=
  { c with historyCache := ranges.foldl (fun cache range => cache.delete (key id range)) c.historyCache }

/-- The new query and its entry. -/
def refill (c : Cache) (id : String) (range : EarningsRange) (now clock : ℤ) : Cache where
  historyCache :=
    ((c.historyCache.delete (key id range)).evict MAX_HISTORY_CACHE_ENTRIES).set (key id range)
      { endAt := endOf range now
        expiresAt := clock + (EARNINGS_WINDOWS range).bucketMs - now.tmod (EARNINGS_WINDOWS range).bucketMs
        data := c.queries.length }
  queries := c.queries ++ [⟨id, range, now⟩]

/-- `clock` is the time of the calls of `Date.now()`; the promise that is returned comes second. -/
def getEarningsHistory (c : Cache) (id : String) (range : EarningsRange) (now clock : ℤ) : Cache × ℕ :=
  match c.historyCache.get? (key id range) with
  | some existing =>
      if existing.endAt = endOf range now ∧ existing.expiresAt > clock then (c, existing.data)
      else (c.refill id range now clock, c.queries.length)
  | none => (c.refill id range now clock, c.queries.length)

/-- What `pruneOldEarnings` does after its transaction. -/
def clear (c : Cache) : Cache := { c with historyCache := .empty }

/-- The handler of a rejected query. -/
def caught (c : Cache) (data : ℕ) : Cache :=
  match c.queries[data]? with
  | some q =>
      match c.historyCache.get? (key q.id q.range) with
      | some entry =>
          if entry.data = data then
            { c with historyCache := c.historyCache.delete (key q.id q.range) }
          else c
      | none => c
  | none => c

end Cache

inductive Input where
  | get (id : String) (range : EarningsRange) (now clock : ℤ)
  /-- A sale of the account is committed. -/
  | committed (id : String)
  /-- The listener of the sale is told so. -/
  | invalidate (id : String)
  | prune
  | rejected (data : ℕ)
  deriving DecidableEq, Repr

def Cache.step (c : Cache) : Input → Cache
  | .get id range now clock => (c.getEarningsHistory id range now clock).1
  | .committed _ => c
  | .invalidate id => c.invalidateEarningsHistory id
  | .prune => c.clear
  | .rejected data => c.caught data

end AfkClient.EarningsHistory

import AfkClient.Library.Dictionary
import AfkClient.Model.BufferedWriter
import Mathlib.Data.Rat.Defs

/-! The persistence of payouts: a burst is one transaction, which also moves the time of the last
sale of every account in it. -/

namespace AfkClient.Earnings

open BufferedWriter (State)

/-- The input of `createMany`; the time is that of a `Date`. -/
structure SellEarning where
  minecraftAccountId : String
  amount : ℚ
  createdAt : ℤ
  deriving DecidableEq, Repr

structure Database where
  sellEarnings : List SellEarning := []
  lastSellAt : String → Option ℤ

/-- The latest payout of each account. -/
def latest (rows : List SellEarning) : Dictionary String ℤ :=
  rows.foldl (fun latest row =>
    if (latest.get? row.minecraftAccountId).all (row.createdAt > ·) then
      latest.set row.minecraftAccountId row.createdAt
    else latest) .empty

/-- `minecraftAccount.updateMany` -/
def Database.touch (db : Database) (id : String) (at' : ℤ) : Database :=
  if (db.lastSellAt id).all (· ≤ at') then
    { db with lastSellAt := Function.update db.lastSellAt id (some at') }
  else db

/-- The transaction that is committed for a batch. -/
def Database.write (db : Database) (rows : List SellEarning) : Database :=
  (latest rows).rows.foldl (fun db entry => db.touch entry.1 entry.2)
    { db with sellEarnings := db.sellEarnings ++ rows }

/-- The writer of the payouts in front of the database. -/
structure World where
  writer : State SellEarning := {}
  db : Database

abbrev Input := BufferedWriter.Input SellEarning

/-- A transaction is committed as a whole or not at all. -/
def World.step (batchSize : ℕ) (w : World) (input : Input) : World where
  writer := BufferedWriter.step batchSize w.writer input
  db :=
    match input with
    | .outcome number true =>
        match w.writer.saves.find? (·.number = number) with
        | some ⟨_, .writing batch _⟩ => w.db.write (batch.map (·.item))
        | _ => w.db
    | _ => w.db

end AfkClient.Earnings

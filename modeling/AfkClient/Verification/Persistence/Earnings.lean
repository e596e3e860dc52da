import AfkClient.Model.Earnings
import AfkClient.Verification.BufferedWriter.Progress
import Mathlib.Order.Lattice

/-! Payouts are stored once, in whatever batches and over whatever failures, and the last sale of
an account is that of its latest stored payout. -/

namespace AfkClient.Earnings

open BufferedWriter

/-! ### Latest times -/

/-- A later time counts. -/
def later (old : Option ℤ) (at' : ℤ) : Option ℤ := if old.all (· ≤ at') then some at' else old

theorem later_eq (old : Option ℤ) (at' : ℤ) : later old at' = some (old.elim at' (max · at')) := by
  cases old with
  | none => rfl
  | some t =>
      by_cases h : t ≤ at'
      · simp [later, h]
      · simp [later, h, le_of_not_ge h]

theorem max?_concat (l : List ℤ) (a : ℤ) : (l ++ [a]).max? = later l.max? a := by
  rw [later_eq]
  cases l with
  | nil => rfl
  | cons x xs => simp only [List.cons_append, List.max?_cons', List.foldl_append, List.foldl_cons,
      List.foldl_nil, Option.elim_some]

theorem max?_append (l l' : List ℤ) :
    (l ++ l').max? = l'.max?.elim l.max? (later l.max?) := by
  induction l' using List.reverseRecOn with
  | nil => simp
  | append_singleton l' a ih =>
      rw [← List.append_assoc, max?_concat, max?_concat, ih]
      cases l'.max? with
      | none => simp [later_eq]
      | some b =>
          cases l.max? with
          | none => simp [later_eq]
          | some c => simp [later_eq, max_assoc]

theorem le_later (old : Option ℤ) (at' t : ℤ) (h : old = some t) : ∃ t' ≥ t, later old at' = some t' :=
  ⟨max t at', le_max_left _ _, by simp [later_eq, h]⟩

/-! ### One transaction -/

/-- When the payouts of an account were made. -/
def times (id : String) (rows : List SellEarning) : List ℤ :=
  (rows.filter (·.minecraftAccountId = id)).map (·.createdAt)

@[simp] theorem times_append (id : String) (rows rows' : List SellEarning) :
    times id (rows ++ rows') = times id rows ++ times id rows' := by
  simp [times]

theorem get?_latest (rows : List SellEarning) (id : String) :
    (latest rows).get? id = (times id rows).max? := by
  induction rows using List.reverseRecOn with
  | nil => rfl
  | append_singleton rows row ih =>
      have hstep : latest (rows ++ [row]) =
          if ((latest rows).get? row.minecraftAccountId).all (row.createdAt > ·) then
            (latest rows).set row.minecraftAccountId row.createdAt
          else latest rows := by
        simp [latest]
      rw [hstep, times_append]
      by_cases hid : row.minecraftAccountId = id
      · subst hid
        have htimes : times row.minecraftAccountId [row] = [row.createdAt] := by simp [times]
        rw [htimes, max?_concat, ← ih, later_eq]
        cases hold : (latest rows).get? row.minecraftAccountId with
        | none => simp [Dictionary.get?_set_self]
        | some t =>
            by_cases hlater : row.createdAt > t
            · simp [hlater, Dictionary.get?_set_self, hlater.le]
            · simp [hlater, hold, le_of_not_gt hlater]
      · have htimes : times id [row] = [] := by simp [times, hid]
        rw [htimes, List.append_nil, ← ih]
        split
        · exact Dictionary.get?_set_of_ne _ _ _ (Ne.symm hid)
        · rfl

theorem touch_lastSellAt (db : Database) (id : String) (at' : ℤ) :
    (db.touch id at').lastSellAt = Function.update db.lastSellAt id (later (db.lastSellAt id) at') := by
  unfold Database.touch later
  split
  · rfl
  · exact (Function.update_eq_self id db.lastSellAt).symm

/-- Every account is touched once. -/
theorem foldl_touch {entries : List (String × ℤ)} (hnodup : (entries.map Prod.fst).Nodup)
    (db : Database) :
    (entries.foldl (fun db entry => db.touch entry.1 entry.2) db).sellEarnings = db.sellEarnings ∧
    ∀ id, (entries.foldl (fun db entry => db.touch entry.1 entry.2) db).lastSellAt id =
      ((entries.find? (·.1 = id)).map Prod.snd).elim (db.lastSellAt id) (later (db.lastSellAt id)) := by
  induction entries generalizing db with
  | nil => simp
  | cons entry entries ih =>
      obtain ⟨hfresh, hrest⟩ := List.nodup_cons.mp hnodup
      obtain ⟨hrows, hlast⟩ := ih hrest (db.touch entry.1 entry.2)
      refine ⟨hrows.trans ?_, fun id => (hlast id).trans ?_⟩
      · unfold Database.touch
        split <;> rfl
      · rw [touch_lastSellAt]
        by_cases hid : entry.1 = id
        · subst hid
          have hnone : entries.find? (·.1 = entry.1) = none := by
            rw [List.find?_eq_none]
            intro other hother hsame
            exact hfresh (List.mem_map.mpr ⟨other, hother, by simpa using hsame⟩)
          simp [hnone]
        · simp [hid, Function.update_of_ne (Ne.symm hid)]

theorem write_sellEarnings (db : Database) (rows : List SellEarning) :
    (db.write rows).sellEarnings = db.sellEarnings ++ rows :=
  (foldl_touch (latest rows).nodup _).1

/-- A transaction moves the last sale of an account to its latest payout, never back. -/
theorem write_lastSellAt (db : Database) (rows : List SellEarning) (id : String) :
    (db.write rows).lastSellAt id =
      (times id rows).max?.elim (db.lastSellAt id) (later (db.lastSellAt id)) := by
  rw [Database.write, (foldl_touch (latest rows).nodup _).2 id]
  exact congrArg (fun o => o.elim (db.lastSellAt id) (later (db.lastSellAt id))) (get?_latest rows id)

/-! ### The writes of the writer -/

section Writes

variable {α : Type*} {batchSize : ℕ}

/-- The write that an input ends. -/
def ended (s : State α) : BufferedWriter.Input α → List (Write α)
  | .outcome number ok =>
      match s.saves.find? (·.number = number) with
      | some ⟨_, .writing batch _⟩ => [⟨batch, ok⟩]
      | _ => []
  | _ => []

theorem schedule_writes (s : State α) : (schedule s).writes = s.writes := by
  unfold schedule
  split <;> rfl

theorem drain_writes (s : State α) : (drain batchSize s).1.writes = s.writes := by
  rcases drain_cases batchSize s with ⟨-, heq⟩ | ⟨-, -, heq⟩ | ⟨-, -, heq⟩ <;> rw [heq]

theorem written_writes (number : ℕ) (batch rest : List (Entry α)) (ok : Bool) (s : State α) :
    (written number batch rest ok s).writes = s.writes ++ [⟨batch, ok⟩] := by
  match ok, batch with
  | true, _ | false, [] | false, [entry] | false, entry :: other :: more => rfl

theorem step_writes (s : State α) (i : BufferedWriter.Input α) :
    (step batchSize s i).writes = s.writes ++ ended s i := by
  cases i with
  | enqueue item => simp [step, enqueue, schedule_writes, ended]
  | flush => simp [step, flush, flushTurn, drain_writes, ended]
  | timer =>
      simp only [step, ended, List.append_nil]
      split
      · exact drain_writes _
      · rfl
  | outcome number ok =>
      simp only [step, ended]
      cases hfind : s.saves.find? (·.number = number) with
      | none => simp
      | some save =>
          obtain ⟨found, _ | _⟩ := save
          · exact written_writes _ _ _ _ _
          · simp
  | proceed number =>
      simp only [step, ended, List.append_nil]
      split
      · rfl
      · exact schedule_writes _
      · rfl
  | resume k =>
      simp only [step, ended, List.append_nil]
      split
      · split
        · unfold resume
          split
          · exact drain_writes _
          · rfl
        · rfl
      · rfl

end Writes

/-! ### Laws -/

/-- The payouts of the promises that were resolved. -/
def resolved (s : State SellEarning) : List SellEarning := (s.settled.filter (·.2)).map (·.1.item)

structure Stored (before : String → Option ℤ) (w : World) : Prop where
  /-- One row for every promise that was resolved, none for the others. -/
  rows : w.db.sellEarnings = resolved w.writer
  once : (w.writer.settled.map (·.1.id)).Nodup
  own : ∀ entry ok, (entry, ok) ∈ w.writer.settled → w.writer.enqueued[entry.id]? = some entry.item
  /-- A payout is lost only with a transaction of its own. -/
  alone : ∀ entry, (entry, false) ∈ w.writer.settled → ⟨[entry], false⟩ ∈ w.writer.writes
  lastSellAt : ∀ id, w.db.lastSellAt id = ((before id).toList ++ times id w.db.sellEarnings).max?

/-- No last sale moves back. -/
def Forward (batchSize : ℕ) (w : World) (input : Input) : Prop :=
  ∀ id t, w.db.lastSellAt id = some t → ∃ t' ≥ t, (w.step batchSize input).db.lastSellAt id = some t'

/-! ### Runs -/

variable {batchSize : ℕ} {before : String → Option ℤ} {w : World}

/-- What the database holds is what the writer wrote. -/
structure Written (before : String → Option ℤ) (w : World) : Prop where
  rows : w.db.sellEarnings =
    ((w.writer.writes.filter (·.ok)).flatMap Write.batch).map (·.item)
  lastSellAt : ∀ id, w.db.lastSellAt id = ((before id).toList ++ times id w.db.sellEarnings).max?

/-- A step of the world commits the batch of the write that it ends. -/
theorem step_db (w : World) (input : Input) :
    (ended w.writer input).filter (·.ok) = [] ∧ (w.step batchSize input).db = w.db ∨
      ∃ batch, (ended w.writer input).filter (·.ok) = [⟨batch, true⟩] ∧
        (w.step batchSize input).db = w.db.write (batch.map (·.item)) := by
  cases input with
  | outcome number ok =>
      cases ok with
      | false =>
          left
          refine ⟨?_, rfl⟩
          unfold ended
          dsimp only
          split <;> rfl
      | true =>
          unfold ended World.step
          dsimp only
          cases hfind : w.writer.saves.find? (·.number = number) with
          | none => exact .inl ⟨rfl, rfl⟩
          | some save =>
              obtain ⟨found, _ | _⟩ := save
              · exact .inr ⟨_, rfl, rfl⟩
              · exact .inl ⟨rfl, rfl⟩
  | _ => exact .inl ⟨rfl, rfl⟩

theorem Written.step (h : Written before w) (input : Input) : Written before (w.step batchSize input) := by
  have hwrites : (w.step batchSize input).writer.writes = w.writer.writes ++ ended w.writer input :=
    step_writes w.writer input
  rcases @step_db batchSize w input with ⟨hnone, hdb⟩ | ⟨batch, hone, hdb⟩
  · refine ⟨?_, ?_⟩
    · rw [hdb, hwrites, List.filter_append, hnone, List.append_nil]
      exact h.rows
    · rw [hdb]
      exact h.lastSellAt
  · refine ⟨?_, fun id => ?_⟩
    · rw [hdb, write_sellEarnings, hwrites, List.filter_append, hone, h.rows]
      simp
    · rw [hdb, write_sellEarnings, write_lastSellAt, times_append, ← List.append_assoc, max?_append,
        h.lastSellAt id]

theorem forward_step (w : World) (input : Input) : Forward batchSize w input := by
  intro id t ht
  rcases @step_db batchSize w input with ⟨-, hdb⟩ | ⟨batch, -, hdb⟩
  · exact ⟨t, le_refl t, by rw [hdb, ht]⟩
  · rw [hdb, write_lastSellAt]
    cases (times id (batch.map (·.item))).max? with
    | none => exact ⟨t, le_refl t, ht⟩
    | some at' => exact le_later _ at' t ht

theorem Written.stored (h : Written before w) (hw : Orderly batchSize w.writer) : Stored before w where
  rows := by
    rw [h.rows, hw.items.saved, resolved, List.map_map]
    rfl
  once := hw.promises.settledOnce
  own := hw.promises.enqueued
  alone := hw.promises.rejected
  lastSellAt := h.lastSellAt

/-- In every order of payouts, timers, transactions and failures. -/
theorem payouts_stored (batchSize : ℕ) (hsize : 1 ≤ batchSize) (before : String → Option ℤ)
    (inputs : List Input) :
    Along (World.step batchSize) (Stored before) { db := { lastSellAt := before } } inputs ∧
      Meets (World.step batchSize) (Forward batchSize) { db := { lastSellAt := before } } inputs := by
  have hstart : Written before { db := { lastSellAt := before } } := by
    refine ⟨rfl, fun id => ?_⟩
    cases hbefore : before id <;> simp [times, hbefore]
  have hrun := @along_of_invariant _ _ (World.step batchSize)
    (fun w => Written before w ∧ Orderly batchSize w.writer)
    (fun w input h => ⟨h.1.step input, h.2.step hsize input⟩) _ ⟨hstart, orderly_init⟩ inputs
  exact ⟨hrun.mono fun w h => h.1.stored h.2, meets_true.mono fun w input _ => forward_step w input⟩

/-- The transaction of two accounts' payouts fails, and so does the one of the first alone. -/
theorem payouts_stored_alone :
    Along (World.step 200) (Stored fun _ => none) { db := { lastSellAt := fun _ => none } }
        [.enqueue ⟨"a", 5, 10⟩, .enqueue ⟨"b", 7, 11⟩, .timer, .outcome 0 false, .outcome 0 false,
          .proceed 0, .outcome 0 true] ∧
      Meets (World.step 200) (Forward 200) { db := { lastSellAt := fun _ => none } }
        [.enqueue ⟨"a", 5, 10⟩, .enqueue ⟨"b", 7, 11⟩, .timer, .outcome 0 false, .outcome 0 false,
          .proceed 0, .outcome 0 true] :=
  payouts_stored 200 (by decide) _ _

end AfkClient.Earnings

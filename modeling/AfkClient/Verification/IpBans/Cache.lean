import AfkClient.Library.Replica
import AfkClient.Model.IpBans

/-! The banned addresses in memory and the table, over all interleavings of calls. The memory
follows the table where calls of one address go on in the order of their queries. -/

namespace AfkClient.IpBans

open Function (update)

variable {s : Bans} {ip : Address}

/-! ### What has reached the table and not the memory -/

/-- What a call is going to do to the banned addresses in memory. -/
def Answered.write (a : Answered) : Option (Address × Bool) :=
  match a.call with
  | .banIp ip _ | .registerFailedLogin ip _ => if a.ok then some (ip, true) else none
  | .unbanIp ip => some (ip, false)

def Bans.replica (s : Bans) : Replica Address Bool where
  store ip := (s.rows.find? ip).isSome
  copy ip := ip ∈ s.bannedIps
  log := s.answered.filterMap Answered.write

/-- The two calls do not do opposite things to one address. -/
def Answered.Agrees (a b : Answered) : Prop :=
  ∀ x ∈ a.write, ∀ y ∈ b.write, x.1 = y.1 → x = y

instance (a b : Answered) : Decidable (a.Agrees b) :=
  inferInstanceAs (Decidable (∀ x ∈ a.write, ∀ y ∈ b.write, x.1 = y.1 → x = y))

/-- A query that fails leaves the table as it is if it is to create a row, and finds no row if it is
to delete one. No call goes on before a call that did the opposite to its address earlier. -/
def InOrder (s : Bans) : Event → Prop
  | .query id ending =>
      ∀ w ∈ s.waiting.find? (·.id = id),
        match w.call with
        | .banIp ip _ | .registerFailedLogin ip _ => ending = .fails true → (s.rows.find? ip).isSome
        | .unbanIp ip => ending = .fails false → s.rows.find? ip = none
  | .resume id =>
      ∀ a ∈ s.answered.find? (·.id = id), ∀ b ∈ s.answered.takeWhile (·.id ≠ id), b.Agrees a
  | _ => True

/-! ### Queries -/

theorem isSome_upsert (rows : Table BannedIp.ip) (opts : BanOptions) (j : Address) :
    ((upsert rows ip opts).find? j).isSome = update (fun j => (rows.find? j).isSome) ip true j := by
  rw [upsert]
  by_cases hrow : (rows.find? ip).isSome
  · rw [if_pos hrow, Table.find?_update, Option.isSome_map]
    by_cases hj : j = ip
    · rw [hj, Function.update_self, hrow]
    · rw [Function.update_of_ne hj]
  · have hnone : rows.find? ip = none := by simpa using hrow
    rw [if_neg hrow, Table.find?_insert _ _ hnone]
    by_cases hj : j = ip
    · rw [if_pos hj, hj, Function.update_self]
      rfl
    · rw [if_neg hj, Function.update_of_ne hj]

theorem isSome_delete (rows : Table BannedIp.ip) (j : Address) :
    ((rows.delete ip).find? j).isSome = update (fun j => (rows.find? j).isSome) ip false j := by
  rw [Table.find?_delete]
  by_cases hj : j = ip
  · rw [if_pos hj, hj, Function.update_self]
    rfl
  · rw [if_neg hj, Function.update_of_ne hj]

/-- What a query does to the table is what its call is going to do to the memory. -/
theorem query_rows {w : Waiting} {ending : Ending} (hw : s.waiting.find? (·.id = w.id) = some w)
    (hin : InOrder s (.query w.id ending)) :
    (fun j => ((if ending = .fails false then s.rows else w.call.query s.rows).find? j).isSome) =
      match Answered.write ⟨w.id, w.call, ending = .succeeds⟩ with
      | none => fun j => (s.rows.find? j).isSome
      | some (ip, banned) => update (fun j => (s.rows.find? j).isSome) ip banned := by
  have hban (ip : Address) (opts : BanOptions)
      (hrow : ending = .fails true → (s.rows.find? ip).isSome) :
      (fun j => ((if ending = .fails false then s.rows
          else upsert s.rows ip opts).find? j).isSome) =
        match if decide (ending = .succeeds) then some (ip, true) else none with
        | none => fun j => (s.rows.find? j).isSome
        | some (ip, banned) => update (fun j => (s.rows.find? j).isSome) ip banned := by
    cases ending with
    | succeeds => simp [isSome_upsert]
    | fails carriedOut =>
        cases carriedOut with
        | false => simp
        | true =>
            have hsame := Function.update_eq_self ip fun j => (s.rows.find? j).isSome
            simp only [hrow rfl] at hsame
            simp [isSome_upsert, hsame]
  have hcall := hin w hw
  obtain ⟨id, call⟩ := w
  cases call with
  | banIp ip opts => exact hban ip opts hcall
  | registerFailedLogin ip opts => exact hban ip opts hcall
  | unbanIp ip =>
      by_cases hfails : ending = .fails false
      · have hsame := Function.update_eq_self ip fun j => (s.rows.find? j).isSome
        simp only [hcall hfails, Option.isSome_none] at hsame
        simp [hfails, Answered.write, hsame]
      · simp [hfails, Answered.write, Call.query, isSome_delete]

/-- A query goes to the table, and into the log if the memory is going to follow. -/
theorem synced_query (h : s.replica.Synced) {id : ℕ} {ending : Ending}
    (hin : InOrder s (.query id ending)) : (s.query id ending).replica.Synced := by
  unfold Bans.query
  cases hw : s.waiting.find? (·.id = id) with
  | none => exact h
  | some w =>
      obtain rfl : w.id = id := by simpa using List.find?_some hw
      have hstore := query_rows hw hin
      simp only [Bans.replica, List.filterMap_append, List.filterMap_cons, List.filterMap_nil, hstore]
      cases (⟨w.id, w.call, ending = .succeeds⟩ : Answered).write with
      | none =>
          simp only [List.append_nil]
          exact h
      | some write => exact h.write write.1 write.2

theorem mem_insert_eq (ips : Finset Address) :
    (fun j => decide (j ∈ insert ip ips)) = update (fun j => decide (j ∈ ips)) ip true := by
  funext j
  by_cases hj : j = ip
  · simp [hj]
  · simp [hj]

theorem mem_erase_eq (ips : Finset Address) :
    (fun j => decide (j ∈ ips.erase ip)) = update (fun j => decide (j ∈ ips)) ip false := by
  funext j
  by_cases hj : j = ip
  · simp [hj]
  · simp [hj]

/-- A call does to the memory what its write says. -/
theorem goOn_replica (a : Answered) : (s.goOn a).1.replica =
    { s.replica with
      copy := match a.write with
        | none => s.replica.copy
        | some (ip, banned) => update s.replica.copy ip banned } := by
  obtain ⟨id, call, ok⟩ := a
  cases call with
  | banIp ip opts =>
      cases ok with
      | true => exact congrArg (Replica.mk _ · _) (mem_insert_eq _)
      | false => rfl
  | unbanIp ip => exact congrArg (Replica.mk _ · _) (mem_erase_eq _)
  | registerFailedLogin ip opts =>
      cases ok with
      | true => exact congrArg (Replica.mk _ · _) (mem_insert_eq _)
      | false => rfl

/-- A call that goes on takes its write into the memory. -/
theorem synced_resume (h : s.replica.Synced) {id : ℕ} (hin : InOrder s (.resume id)) :
    (s.resume id).replica.Synced := by
  unfold Bans.resume
  cases ha : s.answered.find? (·.id = id) with
  | none => exact h
  | some a =>
      obtain ⟨hid, before, after, hsplit, hbefore⟩ := List.find?_eq_some_iff_append.mp ha
      have herase : s.answered.eraseP (·.id = id) = before ++ after := by
        rw [hsplit, List.eraseP_append_right _ (by simpa using hbefore)]
        exact congrArg _ (List.eraseP_cons_of_pos hid)
      have htake : s.answered.takeWhile (·.id ≠ id) = before := by
        rw [hsplit, List.takeWhile_append_of_pos (by simpa using hbefore),
          List.takeWhile_cons_of_neg (by simpa using hid), List.append_nil]
      have hagrees := hin a ha
      rw [htake] at hagrees
      have hsynced : Replica.Synced ⟨s.replica.store, s.replica.copy,
          before.filterMap Answered.write ++ (a :: after).filterMap Answered.write⟩ := by
        have hs := h
        rw [Bans.replica, hsplit, List.filterMap_append] at hs
        exact hs
      dsimp only
      rw [herase]
      show (Bans.goOn { s with answered := before ++ after } a).1.replica.Synced
      rw [goOn_replica]
      simp only [Bans.replica, List.filterMap_append]
      cases hwrite : a.write with
      | none =>
          rw [List.filterMap_cons_none hwrite] at hsynced
          exact hsynced
      | some write =>
          rw [List.filterMap_cons_some hwrite] at hsynced
          refine hsynced.take fun banned hmem => ?_
          obtain ⟨b, hb, hbwrite⟩ := List.mem_filterMap.mp hmem
          exact congrArg Prod.snd (hagrees b hb _ hbwrite write hwrite rfl)

/-! ### Runs -/

/-- What a step that is in order preserves. -/
theorem synced_step (h : s.replica.Synced) {e : Event} (hin : InOrder s e) :
    (s.step e).replica.Synced := by
  cases e with
  | banIp ip opts => exact h
  | unbanIp ip => exact h
  | registerFailedLogin ip now =>
      cases ip with
      | none => exact h
      | some ip =>
          rw [Bans.step, Bans.registerFailedLogin]
          split
          · exact h
          · exact h
  | clearFailedLogins ip =>
      cases ip with
      | none => exact h
      | some ip => exact h
  | query id ending => exact synced_query h hin
  | resume id => exact synced_resume h hin

theorem synced_loadBannedIps (rows : Table BannedIp.ip) : (loadBannedIps rows).replica.Synced := by
  intro ip
  show (rows.find? ip).isSome = decide (ip ∈ (rows.rows.map BannedIp.ip).toFinset)
  have hmem : (rows.find? ip).isSome ↔ ip ∈ (rows.rows.map BannedIp.ip).toFinset := by
    rw [List.mem_toFinset, List.mem_map, Option.isSome_iff_exists]
    simp only [Table.find?_eq_some]
  rw [Bool.eq_iff_iff, hmem, decide_eq_true_eq]

/-- What is in memory is what is in the table. -/
def InSync (s : Bans) : Prop :=
  s.Finished → ∀ ip, s.isIpBanned (some ip) = (s.rows.find? ip).isSome

theorem inSync_of_synced (h : s.replica.Synced) : InSync s := by
  intro hfinished ip
  have hlog : s.replica.log = [] := by
    rw [Bans.replica, hfinished.2]
    rfl
  exact congrFun (h.same hlog) ip

/-- If a query that fails changes nothing, an unban that fails finds nothing, and calls of one
address go on in the order of their queries, then the memory is like the table whenever all calls
have finished. -/
theorem bans_in_sync (rows : Table BannedIp.ip) (events : List Event)
    (h : Meets Bans.step InOrder (loadBannedIps rows) events) :
    Along Bans.step InSync (loadBannedIps rows) events := by
  have hsynced := along_of_preserved (P := fun s : Bans => s.replica.Synced)
    (fun _ _ hs hin => synced_step hs hin) (synced_loadBannedIps rows) h
  exact hsynced.mono fun _ hs => inSync_of_synced hs

def localhost : Address := ⟨"127.0.0.1", by decide⟩

theorem inOrder_succeeds (id : ℕ) : InOrder s (.query id .succeeds) := by
  intro w _
  split <;> nofun

/-- An address that is banned and unbanned again. -/
theorem bans_in_sync_unbanned : InSync (run Bans.step (loadBannedIps Table.empty)
    [.banIp localhost {}, .query 0 .succeeds, .resume 0,
      .unbanIp localhost, .query 1 .succeeds, .resume 1]) := by
  have hmeets : Meets Bans.step InOrder (loadBannedIps Table.empty)
      [.banIp localhost {}, .query 0 .succeeds, .resume 0,
        .unbanIp localhost, .query 1 .succeeds, .resume 1] := by
    refine ⟨trivial, inOrder_succeeds 0, ?_, trivial, inOrder_succeeds 1, ?_, trivial⟩
    · exact fun a _ b hb => nomatch hb
    · exact fun a _ b hb => nomatch hb
  exact (bans_in_sync Table.empty _ hmeets).last

/-- An unban whose query fails leaves the row and forgets the address. -/
theorem failed_unban_forgets :
    let s := run Bans.step (loadBannedIps Table.empty)
      [.banIp localhost {}, .query 0 .succeeds, .resume 0,
        .unbanIp localhost, .query 1 (.fails false), .resume 1]
    s.Finished ∧ s.isIpBanned (some localhost) = false ∧ (s.rows.find? localhost).isSome := by
  decide +kernel

end AfkClient.IpBans

import AfkClient.Model.Users

/-! Whether an active administrator remains. Each handler counts the administrators
before it removes one, but another request may remove one in between. -/

namespace AfkClient.Users

/-! ### Queries and administrators -/

/-- The user whom the query may take from the administrators. -/
def Query.removes : Query → Option String
  | .updateUser id body => if body.guarded then some id else none
  | .deleteUser id => some id
  | _ => none

/-- The user is the only active administrator. -/
def Database.LastAdmin (db : Database) (id : String) : Prop :=
  (db.users.find? id).any User.isActiveAdmin ∧ db.countAdmins ≤ 1

instance (db : Database) (id : String) : Decidable (db.LastAdmin id) :=
  inferInstanceAs (Decidable (_ ∧ _))

theorem isActiveAdmin_apply_of_guarded {body : UpdateUserInput} (h : body.guarded) (u : User) :
    (body.apply u).isActiveAdmin = false := by
  simp only [UpdateUserInput.guarded, Bool.or_eq_true, beq_iff_eq] at h
  rcases h with h | h <;> simp [User.isActiveAdmin, UpdateUserInput.apply, h]

theorem isActiveAdmin_apply_of_not_guarded {body : UpdateUserInput} (h : body.guarded = false)
    {u : User} (hu : u.isActiveAdmin) : (body.apply u).isActiveAdmin := by
  simp only [UpdateUserInput.guarded, Bool.or_eq_false_iff, beq_eq_false_iff_ne] at h
  simp only [User.isActiveAdmin, Bool.and_eq_true, beq_iff_eq] at hu
  obtain ⟨hrole, hstatus⟩ := h
  have hrole' : body.role.getD u.role = .admin := by
    rcases hb : body.role with _ | _ | _ <;> simp_all
  have hstatus' : body.status.getD u.status = .active := by
    rcases hb : body.status with _ | _ | _ <;> simp_all
  simp [User.isActiveAdmin, UpdateUserInput.apply, hrole', hstatus']

section Counting

variable {db : Database} {id : String} {user : User}

theorem countAt_of_find? (h : db.users.find? id = some user) (p : User → Bool) :
    db.users.countAt id p = if p user then 1 else 0 := by
  simp [Table.countAt, h, List.countP_cons]

/-- How a user's rights count before and after an update. -/
theorem countAdmins_updateUser (h : db.users.find? id = some user) (body : UpdateUserInput) :
    (db.updateUser id body).countAdmins + (if user.isActiveAdmin then 1 else 0) =
      db.countAdmins + (if (body.apply user).isActiveAdmin then 1 else 0) := by
  have hcount := db.users.count_update id body.apply (fun _ => rfl) User.isActiveAdmin
  rwa [countAt_of_find? h, countAt_of_find? h] at hcount

theorem countAdmins_deleteUser (h : db.users.find? id = some user) :
    (db.deleteUser id).countAdmins + (if user.isActiveAdmin then 1 else 0) = db.countAdmins := by
  have hcount := db.users.count_delete id User.isActiveAdmin
  rwa [countAt_of_find? h] at hcount

end Counting

theorem lastAdmin_iff {db : Database} {id : String} {user : User}
    (h : db.users.find? id = some user) :
    db.LastAdmin id ↔ user.isActiveAdmin ∧ db.countAdmins ≤ 1 := by
  simp [Database.LastAdmin, h]

/-- A query takes the last active administrator away only where it removes that user. -/
theorem exec_countAdmins {db : Database} (h : 0 < db.countAdmins) (q : Query) :
    0 < (q.exec db).1.countAdmins ↔ ∀ id, q.removes = some id → ¬db.LastAdmin id := by
  have hnone {id : String} (hu : db.users.find? id = none) : ¬db.LastAdmin id := by
    simp [Database.LastAdmin, hu]
  have hone (id : String) : (∀ i, some id = some i → ¬db.LastAdmin i) ↔ ¬db.LastAdmin id := by
    simp
  cases q with
  | getSession | patchTarget | patchCountAdmins | deleteTarget | deleteCountAdmins
  | destroySessionsOfUpdated | destroySessionsOfDeleted =>
      exact iff_of_true h (by simp [Query.removes])
  | updateUser id body =>
      cases hu : db.users.find? id with
      | none =>
          simp only [Query.exec, Query.removes, hu]
          refine iff_of_true h ?_
          intro i hi
          split at hi
          · exact Option.some.inj hi ▸ hnone hu
          · cases hi
      | some user =>
          have hcount := countAdmins_updateUser hu body
          simp only [Query.exec, Query.removes, hu]
          by_cases hg : body.guarded
          · rw [if_pos hg, hone, lastAdmin_iff hu]
            have hoff : ¬(body.apply user).isActiveAdmin := by
              simp [isActiveAdmin_apply_of_guarded hg]
            rw [if_neg hoff] at hcount
            by_cases ha : user.isActiveAdmin
            · rw [if_pos ha] at hcount
              simp only [ha, true_and]
              omega
            · rw [if_neg ha] at hcount
              exact iff_of_true (by omega) (by simp [ha])
          · rw [if_neg hg]
            refine iff_of_true ?_ (by simp)
            by_cases ha : user.isActiveAdmin
            · have hkept := isActiveAdmin_apply_of_not_guarded (by simpa using hg) ha
              rw [if_pos ha, if_pos hkept] at hcount
              omega
            · rw [if_neg ha] at hcount
              omega
  | deleteUser id =>
      cases hu : db.users.find? id with
      | none =>
          simp only [Query.exec, Query.removes, hu]
          exact iff_of_true h ((hone id).mpr (hnone hu))
      | some user =>
          have hcount := countAdmins_deleteUser hu
          simp only [Query.exec, Query.removes, hu]
          rw [hone, lastAdmin_iff hu]
          by_cases ha : user.isActiveAdmin
          · rw [if_pos ha] at hcount
            simp only [ha, true_and]
            omega
          · rw [if_neg ha] at hcount
            exact iff_of_true (by omega) (by simp [ha])

/-! ### Runs -/

/-- The input lets a request remove the only active administrator. -/
def Server.RemovesLastAdmin (s : Server) (i : Input) : Prop :=
  ∃ number p id, i = .query number ∧ s.pending.find? number = some p ∧
    p.query.removes = some id ∧ s.db.LastAdmin id

theorem step_countAdmins {s : Server} (h : 0 < s.db.countAdmins) (i : Input) :
    0 < (s.step i).db.countAdmins ↔ ¬s.RemovesLastAdmin i := by
  cases i with
  | request | login => exact iff_of_true h (by simp [Server.RemovesLastAdmin])
  | query number =>
      cases hp : s.pending.find? number with
      | none =>
          simp only [Server.step, hp]
          exact iff_of_true h (by simp [Server.RemovesLastAdmin, hp])
      | some p =>
          have hdb : (s.step (.query number)).db = (p.query.exec s.db).1 := by
            simp only [Server.step, hp]
            split <;> simp_all
          rw [hdb, exec_countAdmins h]
          simp [Server.RemovesLastAdmin, hp]

/-! ### Guards that stay fresh -/

/-- The user whom the request is going to remove, its guard being passed. -/
def Query.owes : Query → Option String
  | .updateUser id body => if body.guarded then some id else none
  | .destroySessionsOfDeleted id | .deleteUser id => some id
  | _ => none

/-- Whether the query may change who is an active administrator. -/
def Query.editsAdmins : Query → Bool
  | .updateUser _ body => body.role.isSome || body.status.isSome
  | .deleteUser _ => true
  | _ => false

/-- No request edits administrators while another one is between its guard and its write. -/
def Server.Undisturbed (s : Server) (i : Input) : Prop :=
  ∀ number p, i = .query number → s.pending.find? number = some p → p.query.editsAdmins →
    ∀ other q, other ≠ number → s.pending.find? other = some q → q.query.owes = none

/-- Every passed guard would pass again. -/
def Server.Fresh (s : Server) : Prop :=
  ∀ number p id, s.pending.find? number = some p → p.query.owes = some id → ¬s.db.LastAdmin id

theorem lastAdmin_congr {db db' : Database} (h : db'.users = db.users) (id : String) :
    db'.LastAdmin id ↔ db.LastAdmin id := by
  simp [Database.LastAdmin, Database.countAdmins, h]

theorem updateUser_find? (db : Database) (j : String) (body : UpdateUserInput) (id : String) :
    (db.updateUser j body).users.find? id =
      (db.users.find? id).map fun u => if id = j then body.apply u else u :=
  Table.find?_update db.users j body.apply (fun _ => rfl) id

/-- A query that does not edit administrators leaves the last one who it was. -/
theorem exec_lastAdmin {db : Database} {q : Query} (h : q.editsAdmins = false) (id : String) :
    (q.exec db).1.LastAdmin id ↔ db.LastAdmin id := by
  cases q with
  | getSession | patchTarget | patchCountAdmins | deleteTarget | deleteCountAdmins
  | destroySessionsOfUpdated | destroySessionsOfDeleted => exact lastAdmin_congr rfl id
  | deleteUser => simp [Query.editsAdmins] at h
  | updateUser j body =>
      simp only [Query.editsAdmins, Bool.or_eq_false_iff, Option.isSome_eq_false_iff,
        Option.isNone_iff_eq_none] at h
      have hsame (u : User) : (body.apply u).isActiveAdmin = u.isActiveAdmin := by
        simp [User.isActiveAdmin, UpdateUserInput.apply, h.1, h.2]
      cases hu : db.users.find? j with
      | none => simp [Query.exec, hu]
      | some user =>
          have hcount := countAdmins_updateUser hu body
          rw [hsame, Nat.add_right_cancel_iff] at hcount
          simp only [Query.exec, hu, Database.LastAdmin, hcount]
          rw [updateUser_find?]
          cases db.users.find? id with
          | none => rfl
          | some u =>
              simp only [Option.map_some, Option.any_some]
              split
              · rw [hsame]
              · rfl

theorem not_lastAdmin_of_not_admin {db : Database} {id : String}
    (h : ¬(db.users.find? id).any (·.role == .admin)) : ¬db.LastAdmin id := by
  rintro ⟨hactive, -⟩
  cases hu : db.users.find? id with
  | none => simp [hu] at hactive
  | some u => simp_all [User.isActiveAdmin]

theorem begin_owes {request : Request} {user : User} {q : Query}
    (h : request.begin user = .inl q) : q.owes = none := by
  cases request with
  | patch id body =>
      simp only [Request.begin, Sum.inl.injEq] at h
      subst h
      split
      · rfl
      · simp_all [Query.owes]
  | delete id =>
      simp only [Request.begin] at h
      split at h
      · cases h
      · cases h
        rfl

theorem authorize_owes {session : Option (LoginSession × User)} {csrfToken : Option String}
    {request : Request} {q : Query} (h : authorize session csrfToken request = .inl q) :
    q.owes = none := by
  rcases session with - | ⟨session, user⟩
  · cases h
  simp only [authorize] at h
  split at h
  · cases h
  split at h
  · cases h
  · exact begin_owes h

/-- The guard that lets a request go on to its write holds at that moment. -/
theorem exec_owes {db : Database} {q q' : Query} {id : String}
    (hq : ∀ id, q.owes = some id → ¬db.LastAdmin id) (h : (q.exec db).2 = .inl q')
    (ho : q'.owes = some id) : ¬(q.exec db).1.LastAdmin id := by
  cases q with
  | getSession sessionId csrfToken request =>
      rw [authorize_owes h] at ho
      cases ho
  | patchTarget j body =>
      simp only [Query.exec, Sum.inl.injEq] at h ⊢
      subst h
      split at ho
      · cases ho
      · rename_i hrole
        simp only [Query.owes, Option.ite_none_right_eq_some, Option.some.injEq] at ho
        exact ho.2 ▸ not_lastAdmin_of_not_admin hrole
  | patchCountAdmins j body =>
      simp only [Query.exec] at h ⊢
      split at h
      · cases h
      · rename_i hcount
        exact fun hlast => hcount hlast.2
  | updateUser j body =>
      simp only [Query.exec] at h
      split at h
      · cases h
      · simp only at h
        split at h
        · cases h
          cases ho
        · cases h
  | destroySessionsOfUpdated user => cases h
  | deleteTarget j =>
      simp only [Query.exec, Sum.inl.injEq] at h ⊢
      subst h
      split at ho
      · cases ho
      · rename_i hrole
        simp only [Query.owes, Option.some.injEq] at ho
        exact ho ▸ not_lastAdmin_of_not_admin hrole
  | deleteCountAdmins j =>
      simp only [Query.exec] at h ⊢
      split at h
      · cases h
      · rename_i hcount
        exact fun hlast => hcount hlast.2
  | destroySessionsOfDeleted j =>
      cases h
      exact fun hlast => hq id ho ((lastAdmin_congr rfl id).mp hlast)
  | deleteUser j =>
      simp only [Query.exec] at h
      split at h <;> cases h

theorem step_fresh {s : Server} (h : s.Fresh) {i : Input} (hi : s.Undisturbed i) :
    (s.step i).Fresh := by
  cases i with
  | login session =>
      intro number p id hp ho hlast
      exact h number p id hp ho ((lastAdmin_congr rfl id).mp hlast)
  | request number sessionId csrfToken request =>
      intro other q id hq ho
      simp only [Server.step] at hq ⊢
      cases hn : s.pending.find? number with
      | none =>
          rw [Table.find?_insert _ _ hn] at hq
          split at hq
          · cases hq
            cases ho
          · exact h other q id hq ho
      | some p =>
          rw [Table.insert_of_find? hn] at hq
          exact h other q id hq ho
  | query number =>
      cases hp : s.pending.find? number with
      | none =>
          simp only [Server.step, hp]
          exact h
      | some p =>
          -- Another request's guard: either this query edits no administrators, or there is none.
          have hothers : ∀ other q id, other ≠ number → s.pending.find? other = some q →
              q.query.owes = some id → ¬(p.query.exec s.db).1.LastAdmin id := by
            intro other q id hne hq ho
            cases hedits : p.query.editsAdmins with
            | true => simp [hi number p rfl hp hedits other q hne hq] at ho
            | false =>
                rw [exec_lastAdmin hedits]
                exact h other q id hq ho
          have hown {q : Query} {id : String} (hnext : (p.query.exec s.db).2 = .inl q)
              (ho : q.owes = some id) : ¬(p.query.exec s.db).1.LastAdmin id :=
            exec_owes (fun id => h number p id hp) hnext ho
          intro other q id hq ho
          simp only [Server.step, hp] at hq ⊢
          rcases hexec : p.query.exec s.db with ⟨db, query | reply⟩
          · simp only [hexec] at hq hothers hown ⊢
            rw [Table.find?_update] at hq
            by_cases hne : other = number
            · subst hne
              simp only [hp, Option.map_some, if_pos, Option.some.injEq] at hq
              subst hq
              exact hown rfl ho
            · simp only [if_neg hne, Option.map_id'] at hq
              exact hothers other q id hne hq ho
          · simp only [hexec] at hq hothers ⊢
            rw [Table.find?_delete] at hq
            split at hq
            · cases hq
            · exact hothers other q id ‹_› hq ho

theorem not_removesLastAdmin_of_fresh {s : Server} (h : s.Fresh) (i : Input) :
    ¬s.RemovesLastAdmin i := by
  rintro ⟨number, p, id, -, hp, hremoves, hlast⟩
  refine h number p id hp ?_ hlast
  cases hq : p.query <;> simp_all [Query.removes, Query.owes]

/-- Starting with an active administrator and no request in flight, one remains in every
state exactly when no request removes a user who has become the only one since its
guard; in particular when no request edits administrators between the guard and the
write of another. -/
theorem admin_remains (s : Server) (hadmin : 0 < s.db.countAdmins) (hidle : s.pending = Table.empty)
    (inputs : List Input) :
    (Along Server.step (0 < ·.db.countAdmins) s inputs ↔
        Meets Server.step (fun s i => ¬s.RemovesLastAdmin i) s inputs) ∧
      (Meets Server.step Server.Undisturbed s inputs →
        Along Server.step (0 < ·.db.countAdmins) s inputs) := by
  constructor
  · exact along_iff_meets (Q := fun _ => True) (D := fun _ _ => True) (fun _ _ _ _ => trivial)
      (fun _ i _ hpos _ => step_countAdmins hpos i) trivial hadmin meets_true
  · intro hundisturbed
    have hfresh : s.Fresh := by
      intro number p id hp
      rw [hidle] at hp
      cases hp
    have hboth := along_of_preserved (C := Server.Undisturbed)
      (P := fun s => s.Fresh ∧ 0 < s.db.countAdmins)
      (fun s i hs hi => ⟨step_fresh hs.1 hi,
        (step_countAdmins hs.2 i).mpr (not_removesLastAdmin_of_fresh hs.1 i)⟩)
      ⟨hfresh, hadmin⟩ hundisturbed
    exact hboth.mono fun _ hs => hs.2

/-- Two administrators, both logged in. -/
def twoAdmins : Server where
  db := {
    users := (Table.empty.insert { id := "a", username := "a", role := .admin }).insert
      { id := "b", username := "b", role := .admin }
    sessions := [⟨"sa", "ta", "a"⟩, ⟨"sb", "tb", "b"⟩] }

/-- Each of the two deletes the other, having counted two administrators. -/
theorem no_admin_after_crossed_deletes :
    ¬Along Server.step (0 < ·.db.countAdmins) twoAdmins
      [.request 0 "sa" (some "ta") (.delete "b"), .request 1 "sb" (some "tb") (.delete "a"),
        .query 0, .query 1, .query 0, .query 1, .query 0, .query 1, .query 0, .query 1,
        .query 0, .query 1] := by
  decide

theorem single_delete_meets :
    Meets Server.step (fun s i => ¬s.RemovesLastAdmin i) twoAdmins
      [.request 0 "sa" (some "ta") (.delete "b"), .query 0, .query 0, .query 0, .query 0, .query 0] :=
  (admin_remains twoAdmins (by decide) rfl _).1.mp (by decide)

end AfkClient.Users

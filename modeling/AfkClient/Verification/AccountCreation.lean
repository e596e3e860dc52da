import AfkClient.Model.AccountCreation
import Mathlib.Data.List.Dedup

/-! When the creation of an account leaves it with its creator or not at all. -/

namespace AfkClient.AccountCreation

open Accounts (Reply)

/-! ### Deleted users -/

def before (point : Point) (db : Database) : Database := point.deleted.foldl Database.deleteUser db

/-- Ids and names of the accounts. -/
def keys (db : Database) : List (String × String) := db.accounts.map fun row => (row.id, row.name)

theorem keys_deleteUser (db : Database) (user : String) : keys (db.deleteUser user) = keys db := by
  rw [keys, keys, Database.deleteUser, List.map_map]
  refine List.map_congr_left fun row _ => ?_
  by_cases h : row.createdById = some user <;> simp [h]

theorem keys_before (point : Point) (db : Database) : keys (before point db) = keys db := by
  rw [before]
  induction point.deleted generalizing db with
  | nil => rfl
  | cons user deleted ih => rw [List.foldl_cons, ih, keys_deleteUser]

theorem mem_users_before {point : Point} {db : Database} {user : String} :
    user ∈ (before point db).users ↔ user ∈ db.users ∧ user ∉ point.deleted := by
  rw [before]
  induction point.deleted generalizing db with
  | nil => simp
  | cons other deleted ih =>
      rw [List.foldl_cons, ih]
      simp only [Database.deleteUser, List.mem_filter, decide_eq_true_eq, List.mem_cons, not_or]
      tauto

theorem mem_assignments_before {point : Point} {db : Database} {a : String × String} :
    a ∈ (before point db).assignments ↔ a ∈ db.assignments ∧ a.1 ∉ point.deleted := by
  rw [before]
  induction point.deleted generalizing db with
  | nil => simp
  | cons other deleted ih =>
      rw [List.foldl_cons, ih]
      simp only [Database.deleteUser, List.mem_filter, decide_eq_true_eq, List.mem_cons, not_or]
      tauto

/-- The database has the account. -/
def Has (db : Database) (id : String) : Prop := ∃ name, (id, name) ∈ keys db

theorem has_before {point : Point} {db : Database} {id : String} :
    Has (before point db) id ↔ Has db id := by
  rw [Has, Has, keys_before]

/-! ### Queries of a request -/

variable {α β : Type} {point : Point} {db : Database}
  {run : Database → Except Failure (α × Database)}

theorem query_fails (h : point.fails = true) :
    query point run db = (.error .database, before point db) := by
  rw [query, if_pos h]
  rfl

theorem query_ok {a : α} {after : Database} (h : point.fails = false)
    (hrun : run (before point db) = .ok (a, after)) : query point run db = (.ok a, after) := by
  rw [before] at hrun
  simp [query, h, hrun]

/-- A query that only its point can fail. -/
theorem query_total (f : Database → α × Database) (h : point.fails = false) :
    query point (fun db => .ok (f db)) db =
      (.ok (f (before point db)).1, (f (before point db)).2) :=
  query_ok h rfl

theorem query_error {failure : Failure} (h : point.fails = false)
    (hrun : run (before point db) = .error failure) :
    query point run db = (.error failure, before point db) := by
  rw [before] at hrun
  simp [query, h, hrun, before]

theorem bind_ok {x : Request α} {f : α → Request β} {a : α} {after : Database}
    (h : x db = (.ok a, after)) : (x >>= f) db = f a after := by
  change (ExceptT.bindCont f (x db).1) (x db).2 = _
  rw [h]
  rfl

theorem bind_error {x : Request α} {f : α → Request β} {failure : Failure} {after : Database}
    (h : x db = (.error failure, after)) : (x >>= f) db = (.error failure, after) := by
  change (ExceptT.bindCont f (x db).1) (x db).2 = _
  rw [h]
  rfl

/-! ### The creation of the row -/

variable {plan : Plan} {id : String} {input : CreateAccountInput} {creator : Accounts.Session}

def NameFree (db : Database) (name : String) : Prop := ∀ key ∈ keys db, key.2 ≠ name

/-- Nothing in the database names the new account. -/
structure Unused (db : Database) (id : String) : Prop where
  accounts : ¬ Has db id
  assignments : ∀ a ∈ db.assignments, a.2 ≠ id

/-- The row of the account is created. -/
structure Creates (plan : Plan) (input : CreateAccountInput) (creator : Accounts.Session)
  (id : String)
    (db : Database) : Prop where
  aggregate : plan.aggregate.fails = false
  create : plan.create.fails = false
  name : NameFree db (input.account id).name
  user : creator.userId ∈ db.users
  stays : creator.userId ∉ plan.aggregate.deleted ∧ creator.userId ∉ plan.create.deleted

theorem create_any {row : AccountRow} (hid : ¬ Has db row.id) :
    (db.accounts.any fun other => other.id = row.id ∨ other.name = row.name) = true ↔
      ¬ NameFree db row.name := by
  simp only [List.any_eq_true, decide_eq_true_eq, NameFree, keys, List.mem_map, not_forall,
    not_not]
  constructor
  · rintro ⟨other, hother, hsame | hsame⟩
    · exact absurd ⟨other.name, List.mem_map.mpr ⟨other, hother, by rw [hsame]⟩⟩ hid
    · exact ⟨_, ⟨other, hother, rfl⟩, hsame⟩
  · rintro ⟨_, ⟨other, hother, rfl⟩, hsame⟩
    exact ⟨other, hother, .inr hsame⟩

theorem create_ok {row : AccountRow} (hid : ¬ Has db row.id) (hname : NameFree db row.name)
    (huser : ∀ user ∈ row.createdById, user ∈ db.users) :
    db.create row = .ok { db with accounts := db.accounts ++ [row] } := by
  have hany := (create_any hid).not.mpr (not_not.mpr hname)
  have hall : row.createdById.all (· ∈ db.users) = true := by
    cases hcreator : row.createdById with
    | none => rfl
    | some user => simpa using huser user hcreator
  rw [Database.create, if_neg hany, if_neg (not_not.mpr hall)]

theorem create_error {row : AccountRow} (hid : ¬ Has db row.id) {user : String}
    (huser : row.createdById = some user) (h : ¬ (NameFree db row.name ∧ user ∈ db.users)) :
    ∃ failure, db.create row = .error failure := by
  by_cases hname : NameFree db row.name
  · have hall : ¬ row.createdById.all (· ∈ db.users) = true := by
      rw [huser]
      simpa using fun hmem => h ⟨hname, hmem⟩
    rw [Database.create, if_neg ((create_any hid).not.mpr (not_not.mpr hname)), if_pos hall]
    exact ⟨_, rfl⟩
  · rw [Database.create, if_pos ((create_any hid).mpr hname)]
    exact ⟨_, rfl⟩

/-- What is left to do behind the creation of the row. -/
def assignCreator (plan : Plan) (id : String) (creator : Accounts.Session) :
    Request (Option AccountRow) := do
  query plan.assign fun db => (db.setAssignments id [creator.userId]).map fun db => ((), db)
  query plan.reread fun db => .ok (db.getAccountForSession creator id, db)

/-- The row that is created. -/
def createdRow (input : CreateAccountInput) (creator : Accounts.Session) (id : String)
    (db : Database) :
    AccountRow :=
  { input.account id with
    createdById := some creator.userId
    dashboardOrder := db.maxOrder.getD (-1) + 1 }

theorem createAccount_eq (hrole : creator.role ≠ .admin) (h : plan.aggregate.fails = false) :
    createAccount plan id input creator db =
      (do query plan.create fun db' =>
            (db'.create (createdRow input creator id (before plan.aggregate db))).map
              fun db => ((), db)
          assignCreator plan id creator :
            Request (Option AccountRow)) (before plan.aggregate db) := by
  rw [createAccount, bind_ok (query_ok h rfl)]
  simp only [hrole, ne_eq, not_false_eq_true, if_true]
  rfl

/-- Until the row is created the database loses only users. -/
theorem nameFree_before {name : String} : NameFree (before point db) name ↔ NameFree db name := by
  rw [NameFree, NameFree, keys_before]

theorem createAccount_creates (hrole : creator.role ≠ .admin) (hunused : Unused db id)
    (h : Creates plan input creator id db) :
    ∃ created, createAccount plan id input creator db = assignCreator plan id creator created ∧
      Has created id ∧ creator.userId ∈ created.users ∧ ∀ a ∈ created.assignments, a.2 ≠ id := by
  have hfree : NameFree (before plan.create (before plan.aggregate db)) (input.account id).name :=
    nameFree_before.mpr (nameFree_before.mpr h.name)
  have hhas : ¬ Has (before plan.create (before plan.aggregate db)) id := by
    rw [has_before, has_before]
    exact hunused.accounts
  have huser : creator.userId ∈ (before plan.create (before plan.aggregate db)).users :=
    mem_users_before.mpr ⟨mem_users_before.mpr ⟨h.user, h.stays.1⟩, h.stays.2⟩
  have hcreate := @create_ok _ (createdRow input creator id (before plan.aggregate db)) hhas hfree
    (by rintro user ⟨rfl⟩; exact huser)
  have hquery := @query_ok _ _ _ (fun db' =>
    (db'.create (createdRow input creator id (before plan.aggregate db))).map fun db => ((), db))
    _ _ h.create (by rw [hcreate]; rfl)
  refine ⟨_, (createAccount_eq hrole h.aggregate).trans (bind_ok hquery), ?_, huser, ?_⟩
  · exact ⟨_, List.mem_map.mpr ⟨_, List.mem_append_right _ (List.mem_singleton_self _), rfl⟩⟩
  · intro a ha
    exact hunused.assignments a (mem_assignments_before.mp (mem_assignments_before.mp ha).1).1

theorem createAccount_fails (hrole : creator.role ≠ .admin) (hunused : Unused db id)
    (h : ¬ Creates plan input creator id db) :
    ∃ failure after, createAccount plan id input creator db = (.error failure, after) ∧
      ¬ Has after id := by
  have hhas : ¬ Has (before plan.create (before plan.aggregate db)) id := by
    rw [has_before, has_before]
    exact hunused.accounts
  by_cases haggregate : plan.aggregate.fails = true
  · refine ⟨_, _, bind_error (query_fails haggregate), ?_⟩
    rw [has_before]
    exact hunused.accounts
  rw [Bool.not_eq_true] at haggregate
  rw [createAccount_eq hrole haggregate]
  by_cases hcreate : plan.create.fails = true
  · exact ⟨_, _, bind_error (query_fails hcreate), hhas⟩
  rw [Bool.not_eq_true] at hcreate
  have hnot : ¬ (NameFree (before plan.create (before plan.aggregate db)) (input.account id).name ∧
      creator.userId ∈ (before plan.create (before plan.aggregate db)).users) := by
    rintro ⟨hname, huser⟩
    obtain ⟨huser, hcreated⟩ := mem_users_before.mp huser
    obtain ⟨huser, haggregated⟩ := mem_users_before.mp huser
    exact h ⟨haggregate, hcreate, nameFree_before.mp (nameFree_before.mp hname), huser,
      haggregated, hcreated⟩
  obtain ⟨failure, hfailure⟩ :=
    @create_error _ (createdRow input creator id (before plan.aggregate db)) hhas creator.userId rfl
      hnot
  exact ⟨failure, _, bind_error (query_error hcreate (by rw [hfailure]; rfl)), hhas⟩

/-! ### The assignment of the creator -/

def Assigned (db : Database) (creator : Accounts.Session) (id : String) : Prop :=
  (creator.userId, id) ∈ db.assignments

/-- The assignment is made. -/
structure Assigns (plan : Plan) (creator : Accounts.Session) : Prop where
  assign : plan.assign.fails = false
  user : creator.userId ∉ plan.assign.deleted

theorem assigned_before {point : Point} :
    Assigned (before point db) creator id ↔
      Assigned db creator id ∧ creator.userId ∉ point.deleted :=
  mem_assignments_before

theorem any_of_has (h : Has db id) : (db.accounts.any (·.id = id)) = true := by
  obtain ⟨name, hkey⟩ := h
  obtain ⟨row, hrow, hkeys⟩ := List.mem_map.mp hkey
  exact List.any_eq_true.mpr ⟨row, hrow, by simpa using congrArg Prod.fst hkeys⟩

theorem setAssignments_ok (hhas : Has db id) (huser : creator.userId ∈ db.users) :
    db.setAssignments id [creator.userId] = .ok { db with
      assignments := db.assignments.filter (·.2 ≠ id) ++ [(creator.userId, id)] } := by
  have hany := any_of_has hhas
  have hdedup : [creator.userId].dedup = [creator.userId] := List.dedup_cons_of_notMem (by simp)
  rw [Database.setAssignments, if_neg (by simp [hany, huser]), hdedup]
  rfl

theorem setAssignments_error (huser : creator.userId ∉ db.users) :
    db.setAssignments id [creator.userId] = .error .foreignKey := by
  rw [Database.setAssignments, if_pos (by simp [huser])]

theorem assignCreator_assigns {created : Database} (hhas : Has created id)
    (huser : creator.userId ∈ created.users) (h : Assigns plan creator) :
    ∃ assigned, assignCreator plan id creator created =
      query plan.reread (fun db => .ok (db.getAccountForSession creator id, db)) assigned ∧
      Has assigned id ∧ Assigned assigned creator id := by
  have hset := @setAssignments_ok (before plan.assign created) id creator (has_before.mpr hhas)
    (mem_users_before.mpr ⟨huser, h.user⟩)
  have hquery := @query_ok _ _ _ (fun db =>
    (db.setAssignments id [creator.userId]).map fun db => ((), db)) _ _ h.assign (by rw [hset]; rfl)
  refine ⟨_, bind_ok hquery, has_before.mpr hhas, ?_⟩
  exact List.mem_append_right _ (List.mem_singleton_self _)

theorem assignCreator_fails {created : Database} (hhas : Has created id)
    (hfree : ∀ a ∈ created.assignments, a.2 ≠ id) (h : ¬ Assigns plan creator) :
    ∃ failure after, assignCreator plan id creator created = (.error failure, after) ∧
      Has after id ∧ ¬ Assigned after creator id := by
  have hnot : ¬ Assigned (before plan.assign created) creator id := fun hassigned =>
    hfree _ (assigned_before.mp hassigned).1 rfl
  by_cases hassign : plan.assign.fails = true
  · exact ⟨_, _, bind_error (query_fails hassign), has_before.mpr hhas, hnot⟩
  rw [Bool.not_eq_true] at hassign
  have huser : creator.userId ∉ (before plan.assign created).users := fun huser =>
    h ⟨hassign, (mem_users_before.mp huser).2⟩
  have hset := @setAssignments_error (before plan.assign created) id creator huser
  exact ⟨_, _, bind_error (query_error hassign (by rw [hset]; rfl)), has_before.mpr hhas, hnot⟩

/-! ### The end of the request -/

/-- The account belongs to its creator or does not exist, and a request that failed leaves none
that its creator cannot see. -/
structure Atomic (creator : Accounts.Session) (id : String) (outcome : Outcome) (db : Database) :
  Prop where
  assigned : Has db id → Assigned db creator id
  seen : outcome.reply = .thrown ∨ (∃ code message, outcome.reply = .error code message) →
    Has db id → (db.getAccountForSession creator id).isSome = true

/-- From the query after the assignment on, the creator stays until the request is answered. -/
def Stays (plan : Plan) (creator : Accounts.Session) : Prop :=
  creator.userId ∉ plan.reread.deleted ∧ (plan.reread.fails = false →
    creator.userId ∉ plan.full.deleted ∧
      (plan.full.fails = false → creator.userId ∉ plan.audit.deleted))

theorem seen_of_assigned (hhas : Has db id) (h : Assigned db creator id) :
    (db.getAccountForSession creator id).isSome = true := by
  have hfound : (db.getFullAccount id).isSome = true := by
    simpa [Database.getFullAccount] using any_of_has hhas
  obtain ⟨row, hrow⟩ := Option.isSome_iff_exists.mp hfound
  rw [Assigned] at h
  simp [Database.getAccountForSession, hrow, h]

theorem not_seen_of_not_assigned (hrole : creator.role ≠ .admin) (h : ¬ Assigned db creator id) :
    db.getAccountForSession creator id = none := by
  rw [Assigned] at h
  simp [Database.getAccountForSession, hrole, h]

theorem atomic_iff_assigned {outcome : Outcome} (hhas : Has db id) :
    Atomic creator id outcome db ↔ Assigned db creator id :=
  ⟨fun h => h.assigned hhas, fun h => ⟨fun _ => h, fun _ _ => seen_of_assigned hhas h⟩⟩

/-- The account stays, and its assignment does as long as the creator does. -/
theorem respond_row (row : AccountRow) (hhas : Has db id) :
    Has (respond plan creator (.ok (some row)) db).2 id ∧
      (Assigned (respond plan creator (.ok (some row)) db).2 creator id ↔
        Assigned db creator id ∧ creator.userId ∉ plan.full.deleted ∧
          (plan.full.fails = false → creator.userId ∉ plan.audit.deleted)) := by
  by_cases hfull : plan.full.fails = true
  · have hafter : (respond plan creator (.ok (some row)) db).2 = before plan.full db := by
      simp only [respond, bind, StateT.bind, query_fails hfull]
      rfl
    rw [hafter, has_before, assigned_before]
    simp [hhas, hfull]
  · rw [Bool.not_eq_true] at hfull
    have hafter : ∃ logs, (respond plan creator (.ok (some row)) db).2 =
        { before plan.audit (before plan.full db) with auditLogs := logs } := by
      by_cases haudit : plan.audit.fails = true
      · refine ⟨(before plan.audit (before plan.full db)).auditLogs, ?_⟩
        simp only [respond, bind, StateT.bind, query_total _ hfull, query_fails haudit]
        rfl
      · rw [Bool.not_eq_true] at haudit
        apply Exists.intro
        simp only [respond, bind, StateT.bind, query_total _ hfull, query_total _ haudit]
        rfl
    obtain ⟨logs, hafter⟩ := hafter
    rw [hafter]
    refine ⟨has_before.mpr (has_before.mpr hhas), ?_⟩
    exact (assigned_before.trans (and_congr_left' assigned_before)).trans
      (by simp [hfull, and_assoc])

theorem postAccount_of_run {result : Except Failure (Option AccountRow)} {after : Database}
    (h : createAccount plan id input creator db = (result, after)) :
    postAccount plan id input creator db = respond plan creator result after := by
  change respond plan creator (createAccount plan id input creator db).1
    (createAccount plan id input creator db).2 = _
  rw [h]

theorem respond_error (failure : Failure) :
    (respond plan creator (.error failure) db).2 = db := by
  cases failure <;> rfl

/-- The creation is atomic exactly if the account, once created, is assigned to a creator who
stays. -/
theorem postAccount_atomic_iff (plan : Plan) (id : String) (input : CreateAccountInput)
    (creator : Accounts.Session) (db : Database) (hrole : creator.role ≠ .admin)
      (hunused : Unused db id) :
    Atomic creator id (postAccount plan id input creator db).1
        (postAccount plan id input creator db).2 ↔
      (Creates plan input creator id db → Assigns plan creator ∧ Stays plan creator) := by
  by_cases hcreates : Creates plan input creator id db
  · obtain ⟨created, hcreated, hhas, huser, hfree⟩ :=
      createAccount_creates hrole hunused hcreates
    by_cases hassigns : Assigns plan creator
    · obtain ⟨assigned, hassigned, hhas, hmine⟩ := assignCreator_assigns hhas huser hassigns
      rw [hassigned] at hcreated
      have hhas' : Has (before plan.reread assigned) id := has_before.mpr hhas
      have hstays : Assigned (before plan.reread assigned) creator id ↔
          creator.userId ∉ plan.reread.deleted := assigned_before.trans (and_iff_right hmine)
      by_cases hreread : plan.reread.fails = true
      · rw [postAccount_of_run (hcreated.trans (query_fails hreread)), respond_error,
          atomic_iff_assigned hhas', hstays]
        simp [hcreates, hassigns, Stays, hreread]
      rw [Bool.not_eq_true] at hreread
      rw [postAccount_of_run (hcreated.trans (query_total _ hreread))]
      by_cases hdeleted : creator.userId ∈ plan.reread.deleted
      · -- the account is not found for its creator, and the handler gives up
        have hnone := @not_seen_of_not_assigned (before plan.reread assigned) id creator hrole
          fun h => hstays.mp h hdeleted
        rw [hnone]
        change Atomic creator id { reply := .unanswered } (before plan.reread assigned) ↔ _
        rw [atomic_iff_assigned hhas', hstays]
        simp [hcreates, Stays, hdeleted]
      · obtain ⟨row, hrow⟩ :=
          Option.isSome_iff_exists.mp (seen_of_assigned hhas' (hstays.mpr hdeleted))
        obtain ⟨hhas'', hend⟩ := @respond_row _ plan id creator row hhas'
        rw [hrow, atomic_iff_assigned hhas'', hend, hstays]
        simp [hcreates, hassigns, Stays, hdeleted, hreread]
    · obtain ⟨failure, after, hrun, hhas, hnot⟩ := assignCreator_fails hhas hfree hassigns
      rw [postAccount_of_run (hcreated.trans hrun), respond_error, atomic_iff_assigned hhas]
      exact iff_of_false hnot fun h => hassigns (h hcreates).1
  · obtain ⟨failure, after, hrun, hhas⟩ := createAccount_fails hrole hunused hcreates
    rw [postAccount_of_run hrun]
    refine iff_of_true ⟨fun h => ?_, fun _ h => ?_⟩ fun h => absurd h hcreates
    · rw [respond_error] at h
      exact absurd h hhas
    · rw [respond_error] at h
      exact absurd h hhas

def bot : CreateAccountInput where
  name := "Bot"
  serverHost := "localhost"
  credentialsSecret := "bot@example.com"

/-- Nothing fails and nobody is deleted. -/
theorem postAccount_atomic_quiet :
    Atomic ⟨"u", .user⟩ "a" (postAccount {} "a" bot ⟨"u", .user⟩ { users := ["u"] }).1
      (postAccount {} "a" bot ⟨"u", .user⟩ { users := ["u"] }).2 :=
  (postAccount_atomic_iff {} "a" bot ⟨"u", .user⟩ { users := ["u"] } (by decide)
    ⟨by simp [Has, keys], by simp⟩).mpr fun _ =>
      ⟨⟨rfl, by simp⟩, ⟨by simp, fun _ => ⟨by simp, fun _ => by simp⟩⟩⟩

/-- The transaction of the assignment fails. -/
theorem postAccount_not_atomic :
    ¬ ∀ (plan : Plan) (id : String) (input : CreateAccountInput) (creator : Accounts.Session)
      (db : Database),
      creator.role ≠ .admin → Unused db id →
        Atomic creator id (postAccount plan id input creator db).1
          (postAccount plan id input creator db).2 := by
  intro h
  have hatomic := h { assign := { fails := true } } "a" bot ⟨"u", .user⟩ { users := ["u"] }
    (by decide) ⟨by simp [Has, keys], by simp⟩
  have hhas : Has (postAccount { assign := { fails := true } } "a" bot ⟨"u", .user⟩
      { users := ["u"] }).2 "a" := ⟨"Bot", List.mem_singleton.mpr (by decide +kernel)⟩
  exact absurd (hatomic.assigned hhas) List.not_mem_nil

end AfkClient.AccountCreation

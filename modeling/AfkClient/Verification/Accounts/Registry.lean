import AfkClient.Library.Mirror
import AfkClient.Model.Accounts
import AfkClient.Verification.ClientManager.Registry

/-! Whether the registered clients are the accounts of the database. The requests mirror
the table into the registry, and what a request read may arrive late. -/

namespace AfkClient.Accounts

open Function (update)
open AfkClient (Table)

/-! ### The mirror of a server -/

/-- What a request is going to do to the registry. -/
def Frame.task (read : ℕ) : Frame → MirrorTask String ClientRuntimeConfig
  | .setAssignments _ id | .getCreated _ id | .readCreated id | .readUpdated id _ => .reading id
  | .registerCreated _ (some account) | .registerUpdated _ _ (some account) =>
      .holding account.id (toRuntimeConfig account) read
  | .delete id => .deleting id
  | _ => .idle

namespace Server

def task (s : Server) (number : ℕ) : MirrorTask String ClientRuntimeConfig :=
  match s.pending.find? number with
  | some p => p.frame.task p.read
  | none => .idle

def mirror (s : Server) : Mirror String ClientRuntimeConfig ℕ where
  table := s.manager.wanted
  installed := s.manager.registered
  tasks := s.task
  uninstalled := { id | id ∈ s.unregistered }
  last id := (s.registrations.lookup id).getD 0
  reads := s.reads

end Server

/-- The read that a request is going to register. -/
def Frame.registers : Frame → Option MinecraftAccount
  | .registerCreated _ full | .registerUpdated _ _ full => full
  | _ => none

/-- The account that a request has created and not yet read. -/
def Frame.creating : Frame → Option String
  | .setAssignments _ id | .getCreated _ id => some id
  | _ => none

/-- The account that a request is about. -/
def Frame.named : Frame → Option String
  | .create _ _ => none
  | .setAssignments _ id | .getCreated _ id | .readCreated id | .registerCreated id _
  | .updateAccess _ id _ | .update id _ | .readUpdated id _ | .registerUpdated id _ _
  | .deleteAccess _ id | .unregister id | .delete id => some id

theorem Frame.named_of_creating {f : Frame} {id : String} (h : f.creating = some id) :
    f.named = some id := by
  cases f <;> first | exact h | cases h

namespace Server

/-- A read is registered only if none of its account was registered that is newer, and
no request has unregistered the account. -/
def InOrder (s : Server) : Input → Prop
  | .advance number _ => ∀ p ∈ s.pending.find? number, ∀ account ∈ p.frame.registers,
      account.id ∉ s.unregistered ∧ (s.registrations.lookup account.id).getD 0 ≤ p.read
  | _ => True

instance (s : Server) : ∀ i, Decidable (s.InOrder i)
  | .advance number _ => inferInstanceAs (Decidable (∀ p ∈ s.pending.find? number,
      ∀ account ∈ p.frame.registers,
        account.id ∉ s.unregistered ∧ (s.registrations.lookup account.id).getD 0 ≤ p.read))
  | .request .. | .manager _ => isTrue trivial

/-! ### What one request does -/

section Advance

variable {s : Server} {newId : String} {read : ℕ} {f : Frame}

theorem register_accounts (full : Option MinecraftAccount) :
    (s.register read full).accounts = s.accounts := by
  cases full with
  | none => rfl
  | some account => exact ClientManager.register_accounts s.manager account

theorem restartForVersion_accounts (id : String) (input : UpdateAccountInput) :
    (s.restartForVersion id input).accounts = s.accounts := by
  simp only [restartForVersion, accounts]
  split
  · exact ClientManager.restart_accounts s.manager id
  · rfl

theorem advance_pending : (s.advance newId read f).1.pending = s.pending := by
  cases f <;> simp only [advance] <;> (repeat' split) <;> rfl

theorem advance_usedIds {id : String} (h : id ∈ s.usedIds) :
    id ∈ (s.advance newId read f).1.usedIds := by
  cases f with
  | create session input =>
      simp only [advance]
      split
      · exact h
      split
      · exact h
      · exact List.mem_cons_of_mem _ h
  | _ =>
      simp only [advance]
      repeat' split
      all_goals exact h

end Advance

/-! ### Requests in flight after a step -/

section Pending

variable {s : Server} {number : ℕ} {newId : String} {p : Pending}

/-- The task of a request after it took a step. -/
def nextTask (reads : ℕ) : Frame ⊕ Reply → MirrorTask String ClientRuntimeConfig
  | .inl frame => frame.task reads
  | .inr _ => .idle

theorem find?_advance (hp : s.pending.find? number = some p) (n : ℕ) :
    (s.step (.advance number newId)).pending.find? n =
      if n = number then
        match (s.advance newId p.read p.frame).2 with
        | .inl frame => some { p with
            frame := frame, read := (s.advance newId p.read p.frame).1.reads }
        | .inr _ => none
      else s.pending.find? n := by
  have hpending : (s.advance newId p.read p.frame).1.pending = s.pending := advance_pending
  simp only [step, hp]
  generalize s.advance newId p.read p.frame = r at hpending
  obtain ⟨t, frame | reply⟩ := r
  · simp only at hpending ⊢
    rw [Table.find?_update, hpending]
    by_cases hn : n = number
    · subst hn
      simp [hp]
    · simp [hn]
  · simp only at hpending ⊢
    rw [Table.find?_delete, hpending]

theorem mirror_advance (hp : s.pending.find? number = some p) :
    (s.step (.advance number newId)).mirror =
      { (s.advance newId p.read p.frame).1.mirror with
        tasks := update s.task number
          (nextTask (s.advance newId p.read p.frame).1.reads (s.advance newId p.read p.frame).2) } := by
  have htasks : (s.step (.advance number newId)).task = update s.task number
      (nextTask (s.advance newId p.read p.frame).1.reads (s.advance newId p.read p.frame).2) := by
    funext n
    rw [task, find?_advance hp]
    by_cases hn : n = number
    · subst hn
      rw [if_pos rfl, Function.update_self]
      cases (s.advance newId p.read p.frame).2 <;> rfl
    · rw [if_neg hn, Function.update_of_ne hn, task]
  rw [mirror, htasks]
  simp only [step, hp]
  generalize s.advance newId p.read p.frame = r
  obtain ⟨t, frame | reply⟩ := r <;> rfl

end Pending

/-! ### What the requests own -/

/-- Ids are used before they are named, and a created account has one creator, who is
assigned to it when it is fetched. -/
structure Owned (s : Server) : Prop where
  rows : ∀ id, (s.accounts.find? id).isSome → id ∈ s.usedIds
  named : ∀ n p id, s.pending.find? n = some p → p.frame.named = some id → id ∈ s.usedIds
  unregistered : ∀ id ∈ s.unregistered, id ∈ s.usedIds
  creator : ∀ m n p q id, s.pending.find? m = some p → s.pending.find? n = some q →
    p.frame.creating = some id → q.frame.creating = some id → m = n
  assigned : ∀ n p session id, s.pending.find? n = some p → p.frame = .getCreated session id →
    (s.accounts.find? id).isSome → s.canAccessAccount session id

section Owned

variable {s : Server} {newId : String} {read : ℕ} {f : Frame}

theorem find?_updated (j : String) (input : UpdateAccountInput) (id : String) :
    (s.setAccounts (s.accounts.update j input.apply fun _ => rfl)).accounts.find? id =
      (s.accounts.find? id).map fun account => if id = j then input.apply account else account :=
  Table.find?_update s.accounts j input.apply (fun _ => rfl) id

/-- Only `create` adds an account, under an id that was not used. -/
theorem advance_find? (hrows : ∀ id, (s.accounts.find? id).isSome → id ∈ s.usedIds) {id : String}
    (h : ((s.advance newId read f).1.accounts.find? id).isSome) :
    (s.accounts.find? id).isSome ∨ id ∈ (s.advance newId read f).1.usedIds ∧ id ∉ s.usedIds := by
  cases f with
  | create session input =>
      simp only [advance] at h ⊢
      split at h
      · exact .inl h
      rename_i hnew
      split at h
      · exact .inl h
      rename_i hfree
      have hnone : s.accounts.find? (input.account newId).id = none := by
        by_contra hsome
        exact hnew (hrows newId (Option.isSome_iff_ne_none.mpr hsome))
      simp only [setAccounts, accounts] at h hnone
      rw [Table.find?_insert _ _ hnone] at h
      rw [if_neg hnew, if_neg hfree]
      by_cases hid : id = newId
      · subst hid
        exact .inr ⟨List.mem_cons_self, hnew⟩
      · rw [if_neg (show ¬id = (input.account newId).id from hid)] at h
        exact .inl h
  | update j input =>
      simp only [advance] at h
      split at h
      · exact .inl h
      split at h
      · rw [find?_updated, Option.isSome_map] at h
        exact .inl h
      · exact .inl h
  | delete j =>
      simp only [advance, setAccounts, accounts] at h
      rw [Table.find?_delete] at h
      split at h
      · cases h
      · exact .inl h
  | registerCreated j full =>
      simp only [advance, register_accounts] at h
      exact .inl h
  | registerUpdated j input full =>
      simp only [advance, restartForVersion_accounts, register_accounts] at h
      exact .inl h
  | unregister j =>
      simp only [advance, accounts, ClientManager.unregister_accounts] at h
      exact .inl h
  | setAssignments | getCreated | readCreated | updateAccess | readUpdated | deleteAccess =>
      simp only [advance] at h
      repeat' split at h
      all_goals exact .inl h

theorem advance_named {frame : Frame} {id : String} (h : (s.advance newId read f).2 = .inl frame)
    (hn : frame.named = some id) : f.named = some id ∨ id ∈ (s.advance newId read f).1.usedIds := by
  cases f with
  | create session input =>
      simp only [advance] at h ⊢
      split at h
      · cases h
        cases hn
      rename_i hnew
      split at h
      · cases h
      rename_i hfree
      rw [if_neg hnew, if_neg hfree]
      have hid : id = newId := by
        cases h
        split at hn <;> exact (Option.some.inj hn).symm
      exact .inr (hid ▸ List.mem_cons_self)
  | _ =>
      left
      simp only [advance] at h
      repeat' split at h
      all_goals first | (cases h; exact hn) | cases h

theorem advance_creating {frame : Frame} {id : String} (h : (s.advance newId read f).2 = .inl frame)
    (hc : frame.creating = some id) : f.creating = some id ∨ id ∉ s.usedIds := by
  cases f with
  | create session input =>
      simp only [advance] at h
      split at h
      · cases h
        cases hc
      rename_i hnew
      split at h
      · cases h
      have hid : id = newId := by
        cases h
        split at hc <;> cases hc
        rfl
      exact .inr (hid ▸ hnew)
  | _ =>
      left
      simp only [advance] at h
      repeat' split at h
      all_goals first | (cases h; exact hc) | (cases h; cases hc) | cases h

theorem advance_unregistered {id : String} (h : id ∈ (s.advance newId read f).1.unregistered) :
    id ∈ s.unregistered ∨ f.named = some id := by
  cases f with
  | unregister j =>
      simp only [advance, List.mem_cons] at h
      rcases h with rfl | h
      · exact .inr rfl
      · exact .inl h
  | _ =>
      left
      simp only [advance] at h
      repeat' split at h
      all_goals exact h

/-- A user keeps the access to an account that stays, unless it is assigned anew. -/
theorem advance_canAccess {session : Session} {id : String}
    (hassign : ∀ session, f ≠ .setAssignments session id)
    (hrow : ((s.advance newId read f).1.accounts.find? id).isSome)
    (h : s.canAccessAccount session id) :
    (s.advance newId read f).1.canAccessAccount session id := by
  cases f with
  | setAssignments session' j =>
      have hj : id ≠ j := by
        rintro rfl
        exact hassign session' rfl
      simp only [advance]
      split
      · simp only [canAccessAccount, List.contains_iff_mem, Bool.or_eq_true, beq_iff_eq] at h ⊢
        exact h.imp_right fun h => by simp [h, hj]
      · exact h
  | delete j =>
      have hj : id ≠ j := by
        rintro rfl
        simp [advance, setAccounts, accounts, Table.find?_delete] at hrow
      simp only [advance, canAccessAccount, List.contains_iff_mem, Bool.or_eq_true, beq_iff_eq] at h ⊢
      exact h.imp_right fun h => by simp [h, hj]
  | _ =>
      simp only [advance]
      repeat' split
      all_goals exact h

theorem advance_getCreated {frame : Frame} {session : Session} {id : String}
    (h : (s.advance newId read f).2 = .inl frame) (hf : frame = .getCreated session id) :
    (s.advance newId read f).1.canAccessAccount session id := by
  subst hf
  cases f with
  | create session' input =>
      simp only [advance] at h
      repeat' split at h
      all_goals cases h
  | setAssignments session' j =>
      simp only [advance] at h ⊢
      split at h
      · cases h
        rw [if_pos ‹_›]
        simp [canAccessAccount]
      · cases h
  | _ =>
      simp only [advance] at h
      repeat' split at h
      all_goals cases h

end Owned

/-- A request's step, seen from the requests in flight afterwards. -/
theorem find?_of_advance {s : Server} {number n : ℕ} {newId : String} {p q : Pending}
    (hp : s.pending.find? number = some p)
    (hq : (s.step (.advance number newId)).pending.find? n = some q) :
    (n ≠ number ∧ s.pending.find? n = some q) ∨
      (n = number ∧ (s.advance newId p.read p.frame).2 = .inl q.frame) := by
  rw [find?_advance hp] at hq
  by_cases hn : n = number
  · rw [if_pos hn] at hq
    split at hq
    · rename_i frame hframe
      cases hq
      exact .inr ⟨hn, hframe⟩
    · cases hq
  · rw [if_neg hn] at hq
    exact .inl ⟨hn, hq⟩

theorem step_advance_fields {s : Server} {number : ℕ} (newId : String) {p : Pending}
    (hp : s.pending.find? number = some p) :
    (s.step (.advance number newId)).accounts = (s.advance newId p.read p.frame).1.accounts ∧
    (s.step (.advance number newId)).usedIds = (s.advance newId p.read p.frame).1.usedIds ∧
    (s.step (.advance number newId)).unregistered = (s.advance newId p.read p.frame).1.unregistered ∧
    (s.step (.advance number newId)).assignments = (s.advance newId p.read p.frame).1.assignments := by
  simp only [step, hp]
  generalize s.advance newId p.read p.frame = r
  obtain ⟨t, frame | reply⟩ := r <;> exact ⟨rfl, rfl, rfl, rfl⟩

theorem Owned.advance {s : Server} (h : s.Owned) {number : ℕ} {newId : String} {p : Pending}
    (hp : s.pending.find? number = some p) : (s.step (.advance number newId)).Owned := by
  obtain ⟨haccounts, hused, hunregistered, hassignments⟩ := step_advance_fields newId hp
  have hnamed : ∀ id, p.frame.named = some id → id ∈ s.usedIds := fun id => h.named number p id hp
  have hgrow {id : String} (hid : id ∈ s.usedIds) :
      id ∈ (s.advance newId p.read p.frame).1.usedIds := advance_usedIds hid
  constructor
  · intro id hid
    rw [haccounts] at hid
    rw [hused]
    rcases advance_find? h.rows hid with hold | ⟨hnew, -⟩
    · exact hgrow (h.rows id hold)
    · exact hnew
  · intro n q id hq hn
    rw [hused]
    rcases find?_of_advance hp hq with ⟨-, hold⟩ | ⟨-, hnext⟩
    · exact hgrow (h.named n q id hold hn)
    · rcases advance_named hnext hn with hown | hnew
      · exact hgrow (hnamed id hown)
      · exact hnew
  · intro id hid
    rw [hunregistered] at hid
    rw [hused]
    rcases advance_unregistered hid with hold | hown
    · exact hgrow (h.unregistered id hold)
    · exact hgrow (hnamed id hown)
  · -- A frame that is new in creating an account has an id that no other frame names.
    have hother : ∀ n q id frame, s.pending.find? n = some q → q.frame.creating = some id →
        (s.advance newId p.read p.frame).2 = .inl frame → frame.creating = some id → n = number := by
      intro n q id frame hq hc hnext hcnext
      rcases advance_creating hnext hcnext with hown | hnew
      · exact h.creator n number q p id hq hp hc hown
      · exact absurd (h.named n q id hq (Frame.named_of_creating hc)) hnew
    intro m n q q' id hq hq' hc hc'
    rcases find?_of_advance hp hq with ⟨-, hold⟩ | ⟨rfl, hnext⟩ <;>
      rcases find?_of_advance hp hq' with ⟨-, hold'⟩ | ⟨rfl, hnext'⟩
    · exact h.creator m n q q' id hold hold' hc hc'
    · exact hother m q id q'.frame hold hc hnext' hc'
    · exact (hother n q' id q.frame hold' hc' hnext hc).symm
    · rfl
  · intro n q session id hq hframe hrow
    rw [haccounts] at hrow
    have hcan : (s.advance newId p.read p.frame).1.canAccessAccount session id := by
      rcases find?_of_advance hp hq with ⟨hn, hold⟩ | ⟨-, hnext⟩
      · have hbefore : (s.accounts.find? id).isSome := by
          rcases advance_find? h.rows hrow with hbefore | ⟨-, hnew⟩
          · exact hbefore
          · exact absurd (h.named n q id hold (by rw [hframe]; rfl)) hnew
        refine advance_canAccess ?_ hrow (h.assigned n q session id hold hframe hbefore)
        intro session' hset
        exact hn (h.creator n number q p id hold hp (by rw [hframe]; rfl) (by rw [hset]; rfl))
      · exact advance_getCreated hnext hframe
    simpa only [canAccessAccount, hassignments] using hcan

theorem begin_named {session : Session} {request : Request} {id : String}
    (h : (request.begin session).named = some id) : id ∈ request.ids := by
  cases request <;> cases h
  all_goals exact List.mem_cons_self

theorem begin_creating (session : Session) (request : Request) :
    (request.begin session).creating = none := by
  cases request <;> rfl

theorem Owned.request {s : Server} (h : s.Owned) (number : ℕ) (session : Session)
    (request : Request) : (s.step (.request number session request)).Owned := by
  have hfind : ∀ n q, (s.step (.request number session request)).pending.find? n = some q →
      s.pending.find? n = some q ∨ q.frame = request.begin session := by
    intro n q hq
    simp only [step] at hq
    cases hnumber : s.pending.find? number with
    | none =>
        rw [Table.find?_insert s.pending _ hnumber] at hq
        split at hq
        · cases hq
          exact .inr rfl
        · exact .inl hq
    | some p =>
        rw [Table.insert_of_find? (t := s.pending) hnumber] at hq
        exact .inl hq
  have hcreating : ∀ n q id, (s.step (.request number session request)).pending.find? n = some q →
      q.frame.creating = some id → s.pending.find? n = some q := by
    intro n q id hq hc
    rcases hfind n q hq with hold | hnew
    · exact hold
    · rw [hnew, begin_creating] at hc
      cases hc
  constructor
  · exact fun id hid => List.mem_append_right _ (h.rows id hid)
  · intro n q id hq hn
    rcases hfind n q hq with hold | hnew
    · exact List.mem_append_right _ (h.named n q id hold hn)
    · exact List.mem_append_left _ (begin_named (hnew ▸ hn))
  · exact fun id hid => List.mem_append_right _ (h.unregistered id hid)
  · intro m n q q' id hq hq' hc hc'
    exact h.creator m n q q' id (hcreating m q id hq hc) (hcreating n q' id hq' hc') hc hc'
  · intro n q session' id hq hframe hrow
    have hold := hcreating n q id hq (by rw [hframe]; rfl)
    exact h.assigned n q session' id hold hframe hrow

theorem isSome_wanted (m : ClientManager) (id : String) :
    (m.wanted id).isSome = (m.accounts.find? id).isSome := by
  simp [ClientManager.wanted]

theorem Owned.step {s : Server} (h : s.Owned) (i : Input) : (s.step i).Owned := by
  cases i with
  | request number session request => exact h.request number session request
  | advance number newId =>
      cases hp : s.pending.find? number with
      | none =>
          simp only [Server.step, hp]
          exact h
      | some p => exact h.advance hp
  | manager input =>
      have hrow (id : String) : (((s.manager.step input).accounts).find? id).isSome =
          (s.accounts.find? id).isSome := by
        rw [← isSome_wanted, ClientManager.step_wanted, isSome_wanted]
        rfl
      refine { h with rows := fun id hid => ?_, assigned := fun n q session id hq hframe hid => ?_ }
      · exact h.rows id (hrow id ▸ hid)
      · exact h.assigned n q session id hq hframe (hrow id ▸ hid)

/-! ### The requests mirror the table -/

section Mirror

variable {s : Server} {number : ℕ} {newId : String} {p : Pending}

theorem task_eq (hp : s.pending.find? number = some p) : s.task number = p.frame.task p.read := by
  rw [task, hp]

/-- A step of a request that leaves the table and the registry alone and changes no task. -/
theorem mirror_skip {t : Server} (ht : t.mirror = s.mirror) {x : MirrorTask String ClientRuntimeConfig}
    (hx : x = s.task number) :
    s.mirror.Step { t.mirror with tasks := update s.task number x } := by
  rw [ht, hx, Function.update_eq_self]
  exact .skip

theorem register_mirror (read : ℕ) (account : MinecraftAccount) :
    (s.register read (some account)).mirror =
      { s.mirror with
        installed := update s.mirror.installed account.id (some (toRuntimeConfig account))
        last := update s.mirror.last account.id read } := by
  have hwanted : (s.manager.register account).wanted = s.manager.wanted := by
    funext id
    rw [ClientManager.wanted, ClientManager.register_accounts, ClientManager.wanted]
  have hlast : (fun id => (((account.id, read) :: s.registrations).lookup id).getD 0) =
      update s.mirror.last account.id read := by
    funext id
    rw [List.lookup_cons]
    by_cases h : id = account.id
    · simp [h]
    · have hbeq : (id == account.id) = false := by simpa using h
      rw [hbeq, Function.update_of_ne h]
      rfl
  simp only [mirror, register, Option.elim, Option.map, Option.toList, List.singleton_append,
    hwanted, ClientManager.register_registered] at hlast ⊢
  rw [hlast]
  rfl

theorem restartForVersion_mirror (id : String) (input : UpdateAccountInput) :
    (s.restartForVersion id input).mirror = s.mirror := by
  simp only [restartForVersion]
  split
  · have hregistered := ClientManager.step_registered s.manager (.restart id)
    have hwanted := ClientManager.step_wanted s.manager (.restart id)
    simp only [ClientManager.step] at hregistered hwanted
    simp only [mirror, hregistered, hwanted]
    rfl
  · rfl

/-- A read that is registered in order is an install in order. -/
theorem register_step (id : String) (full : Option MinecraftAccount) {t : Server}
    (hp : s.pending.find? number = some p)
    (htask : p.frame.task p.read = Frame.task p.read (.registerCreated id full))
    (horder : ∀ account, full = some account →
      account.id ∉ s.unregistered ∧ (s.registrations.lookup account.id).getD 0 ≤ p.read)
    (ht : t.mirror = (s.register p.read full).mirror) :
    s.mirror.Step { t.mirror with tasks := update s.task number .idle } := by
  have hown := task_eq hp
  rw [ht]
  cases full with
  | none =>
      refine mirror_skip rfl ?_
      rw [hown, htask]
      rfl
  | some account =>
      rw [register_mirror]
      have hholding : s.mirror.tasks number =
          .holding account.id (toRuntimeConfig account) p.read := hown.trans htask
      exact .install number account.id (toRuntimeConfig account) p.read hholding
        (horder account rfl).1 (horder account rfl).2

theorem read_step (id : String) (hp : s.pending.find? number = some p)
    (htask : p.frame.task p.read = .reading id) {next : Frame}
    (hnext : next.task (s.reads + 1) = Frame.task (s.reads + 1) (.registerCreated id (s.accounts.find? id))) :
    s.mirror.Step { s.mirror with
      reads := s.reads + 1, tasks := update s.task number (next.task (s.reads + 1)) } := by
  have hreading : s.mirror.tasks number = .reading id := (task_eq hp).trans htask
  rw [hnext]
  cases hrow : s.accounts.find? id with
  | none =>
      have hnone : s.mirror.table id = none := by
        simp only [mirror, ClientManager.wanted]
        rw [show s.manager.accounts.find? id = none from hrow]
        rfl
      exact .readNothing number id hreading hnone (s.reads + 1) (Nat.le_succ _)
  | some account =>
      have hid : account.id = id := (Table.find?_eq_some.mp hrow).2
      have hsome : s.mirror.table id = some (toRuntimeConfig account) := by
        simp only [mirror, ClientManager.wanted]
        rw [show s.manager.accounts.find? id = some account from hrow]
        rfl
      subst hid
      exact .read number account.id (toRuntimeConfig account) hreading hsome

/-- A request whose account is gone gives up reading it. -/
theorem gone_step {id : String} (hp : s.pending.find? number = some p)
    (htask : p.frame.task p.read = .reading id) (hrow : s.accounts.find? id = none) :
    s.mirror.Step { s.mirror with tasks := update s.task number .idle } := by
  have hnone : s.mirror.table id = none := by
    simp only [mirror, ClientManager.wanted]
    rw [show s.manager.accounts.find? id = none from hrow]
    rfl
  exact .readNothing number id ((task_eq hp).trans htask) hnone s.reads le_rfl

theorem create_step (h : s.Owned) (hp : s.pending.find? number = some p)
    (htask : p.frame.task p.read = .idle) (hnew : newId ∉ s.usedIds) (input : CreateAccountInput) :
    s.mirror.Step { (s.setAccounts (s.accounts.insert (input.account newId))).mirror with
      tasks := update s.task number (.reading newId) } := by
  have hnone : s.manager.accounts.find? (input.account newId).id = none := by
    by_contra hsome
    exact hnew (h.rows newId (Option.isSome_iff_ne_none.mpr hsome))
  have hwanted := ClientManager.wanted_insert s.manager hnone
  simp only [mirror, setAccounts, accounts, hwanted]
  exact .write number newId _ ((task_eq hp).trans htask) (.inr fun hun => hnew (h.unregistered _ hun))

theorem update_step {id : String} {account : MinecraftAccount} (hp : s.pending.find? number = some p)
    (htask : p.frame.task p.read = .idle) (hrow : s.accounts.find? id = some account)
    (input : UpdateAccountInput) :
    s.mirror.Step { (s.setAccounts (s.accounts.update id input.apply fun _ => rfl)).mirror with
      tasks := update s.task number (.reading id) } := by
  have hwanted := ClientManager.wanted_update s.manager hrow input.apply fun _ => rfl
  simp only [mirror, setAccounts, accounts]
  rw [hwanted]
  refine .write number id _ ((task_eq hp).trans htask) (.inl ?_)
  simp only [ClientManager.wanted]
  rw [show s.manager.accounts.find? id = some account from hrow]
  rfl

/-- Every step of a request is a step of the mirror. -/
theorem advance_mirror (h : s.Owned) (hp : s.pending.find? number = some p)
    (horder : s.InOrder (.advance number newId)) :
    s.mirror.Step (s.step (.advance number newId)).mirror := by
  have hown := task_eq hp
  have horder' := horder p hp
  rw [mirror_advance hp]
  cases hf : p.frame with
  | create session input =>
      rw [hf] at hown
      simp only [advance]
      split
      · exact mirror_skip rfl hown.symm
      rename_i hnew
      split
      · exact mirror_skip rfl hown.symm
      · have hstep := create_step h hp (by rw [hf]; rfl) hnew input
        split <;> exact hstep
  | setAssignments session id =>
      rw [hf] at hown
      simp only [advance]
      split
      · exact mirror_skip rfl hown.symm
      · rename_i hrow
        exact gone_step hp (by rw [hf]; rfl) (by simpa using hrow)
  | getCreated session id =>
      rw [hf] at hown
      simp only [advance]
      split
      · exact mirror_skip rfl hown.symm
      · rename_i hrow
        refine gone_step hp (by rw [hf]; rfl) ?_
        by_contra hsome
        have hsome' := Option.isSome_iff_ne_none.mpr hsome
        exact hrow (by simp [hsome', h.assigned number p session id hp hf hsome'])
  | readCreated id => exact read_step id hp (by rw [hf]; rfl) rfl
  | registerCreated id full =>
      rw [hf] at horder'
      exact register_step id full hp (by rw [hf]) horder' rfl
  | updateAccess session id input =>
      rw [hf] at hown
      simp only [advance]
      split
      · exact mirror_skip rfl hown.symm
      · exact mirror_skip rfl hown.symm
  | update id input =>
      rw [hf] at hown
      simp only [advance]
      split
      · exact mirror_skip rfl hown.symm
      rename_i account hrow
      split
      · exact update_step hp (by rw [hf]; rfl) hrow input
      · exact mirror_skip rfl hown.symm
  | readUpdated id input =>
      refine read_step id hp (by rw [hf]; rfl) ?_
      cases s.accounts.find? id <;> rfl
  | registerUpdated id input full =>
      rw [hf] at horder'
      refine register_step id full hp ?_ horder' (restartForVersion_mirror id input)
      rw [hf]
      cases full <;> rfl
  | deleteAccess session id =>
      rw [hf] at hown
      simp only [advance]
      split
      · exact mirror_skip rfl hown.symm
      · exact mirror_skip rfl hown.symm
  | unregister id =>
      have hwanted : (s.manager.unregister id).wanted = s.manager.wanted := by
        funext other
        rw [ClientManager.wanted, ClientManager.unregister_accounts, ClientManager.wanted]
      have huninstalled : { j | j ∈ id :: s.unregistered } = insert id s.mirror.uninstalled := by
        ext j
        simp [mirror]
      simp only [advance, mirror, hwanted, ClientManager.unregister_registered, huninstalled]
      exact .uninstall number id (hown.trans (by rw [hf]; rfl))
  | delete id =>
      have hwanted := ClientManager.wanted_delete s.manager id
      simp only [advance, mirror, setAccounts, accounts, hwanted]
      exact .delete number id (hown.trans (by rw [hf]; rfl))

theorem request_mirror (number : ℕ) (session : Session) (request : Request) :
    (s.step (.request number session request)).mirror = s.mirror := by
  have hbegin : (request.begin session).task 0 = .idle := by cases request <;> rfl
  have htask : (s.step (.request number session request)).task = s.task := by
    funext n
    simp only [task, step]
    cases hnumber : s.pending.find? number with
    | none =>
        rw [Table.find?_insert s.pending _ hnumber]
        by_cases hn : n = number
        · subst hn
          simp [hnumber, hbegin]
        · simp [hn]
    | some p => rw [Table.insert_of_find? (t := s.pending) hnumber]
  simp only [mirror, htask]
  rfl

theorem step_mirror (h : s.Owned) {i : Input} (horder : s.InOrder i) :
    s.mirror.Step (s.step i).mirror := by
  cases i with
  | request number session request =>
      rw [request_mirror]
      exact .skip
  | advance number newId =>
      cases hp : s.pending.find? number with
      | none =>
          simp only [step, hp]
          exact .skip
      | some p => exact advance_mirror h hp horder
  | manager input =>
      have hsame : (s.step (.manager input)).mirror = s.mirror := by
        simp only [step, mirror, ClientManager.step_wanted, ClientManager.step_registered]
        rfl
      rw [hsame]
      exact .skip

end Mirror

/-! ### Runs -/

/-- Exactly the accounts of the database are registered, each with its configuration. -/
def Agrees (s : Server) : Prop :=
  ∀ id, (s.manager.client? id).map (·.config) = (s.accounts.find? id).map toRuntimeConfig

/-- Starting with a registry that agrees and no request in flight, it agrees whenever no
request is in flight, if every read is registered in order: none after a newer one of
its account, and none after a request unregistered the account. -/
theorem registry_agrees (s : Server) (hidle : s.pending = Table.empty) (hagrees : s.Agrees)
    (hids : ∀ account ∈ s.accounts.rows, account.id ∈ s.usedIds) (hregistrations : s.registrations = [])
    (hunregistered : s.unregistered = []) (inputs : List Input)
    (horder : Meets step InOrder s inputs) :
    Along step (fun s => s.pending.rows = [] → s.Agrees) s inputs := by
  have hnone (n : ℕ) : s.pending.find? n = none := by
    rw [hidle]
    rfl
  have htask (n : ℕ) : s.task n = .idle := by rw [task, hnone]
  have howned : s.Owned := by
    constructor
    · intro id hid
      obtain ⟨account, haccount⟩ := Option.isSome_iff_exists.mp hid
      obtain ⟨hmem, rfl⟩ := Table.find?_eq_some.mp haccount
      exact hids account hmem
    all_goals simp [hnone, hunregistered]
  have hmirror : s.mirror.Ok := by
    constructor
    · intro id config hconfig
      have hsome : (s.mirror.table id).isSome := by
        rw [← show s.mirror.installed id = s.mirror.table id from hagrees id, hconfig]
        rfl
      exact ⟨hsome, by simp [mirror, hunregistered]⟩
    · intro n id hn
      simp [mirror, htask] at hn
    · simp [mirror, hunregistered]
    · intro n id config read hn
      simp [mirror, htask] at hn
    · intro id config hconfig _
      refine .inr ⟨0, .installed ((hagrees id).trans hconfig) (by simp [mirror, hregistrations]), ?_⟩
      intro n other read hn
      simp [mirror, htask] at hn
  have hall := along_of_preserved (C := InOrder)
    (P := fun s => s.Owned ∧ s.mirror.Ok)
    (fun s i h hi => ⟨h.1.step i, h.2.step (step_mirror h.1 hi)⟩) ⟨howned, hmirror⟩ horder
  refine hall.mono fun t ht hquiet id => ?_
  have hidle' (n : ℕ) : t.mirror.tasks n = .idle := by
    simp [mirror, task, Table.find?, hquiet]
  exact congrFun (ht.2.installed_eq_table hidle') id

/-- One registered account. -/
def sampleServer : Server :=
  let account : MinecraftAccount := { id := "a", name := "a", serverHost := "h" }
  let manager : ClientManager := { accounts := Table.empty.insert account }
  { manager := manager.register account, usedIds := ["a"] }

/-- A client edited while its account is deleted is registered again, and stays. -/
theorem deleted_account_registered :
    let admin : Session := ⟨"u", .admin⟩
    let s := run step sampleServer
      [.request 0 admin (.update "a" {}), .advance 0 "", .advance 0 "", .advance 0 "",
        .request 1 admin (.delete "a"), .advance 1 "", .advance 1 "", .advance 1 "",
        .advance 0 ""]
    s.pending.rows.length = 0 ∧ (s.accounts.find? "a").isNone ∧ (s.manager.client? "a").isSome := by
  decide

theorem update_then_delete_agrees :
    let admin : Session := ⟨"u", .admin⟩
    let inputs : List Input :=
      [.request 0 admin (.update "a" { serverPort := some 1 }), .advance 0 "", .advance 0 "",
        .advance 0 "", .advance 0 "", .request 1 admin (.delete "a"), .advance 1 "", .advance 1 "",
        .advance 1 ""]
    Along step (fun s => s.pending.rows = [] → s.Agrees) sampleServer inputs := by
  have hagrees : sampleServer.Agrees := by
    intro id
    by_cases hid : id = "a"
    · subst hid
      rfl
    · have hother : ¬"a" = id := fun heq => hid heq.symm
      change (Option.map _ (Option.map _ (List.find? _ [_]))) = Option.map _ (List.find? _ [_])
      simp [hother]
  exact registry_agrees sampleServer rfl hagrees (by decide) rfl rfl _ (by decide)

end Server

end AfkClient.Accounts

import AfkClient.Model.Login

/-! Old passwords after a change: a login reads the hash, verifies the password for any time and
creates its session in a query of its own. -/

namespace AfkClient.Login

open Auth

/-- No session lives on whose login read a hash older than one whose change has completed. -/
def LoginServer.NoStale (s : LoginServer) : Prop :=
  ∀ p ∈ s.passwords, p.completed → ∀ l ∈ s.logins, l.userId = p.userId → l.read < p.stored →
    s.db.getSession s.now l.sessionId = none

/-- The hash that a login read at `read` was replaced, and the request that did so has deleted the
sessions of the user. -/
def LoginServer.Replaced (s : LoginServer) (userId : String) (read : ℕ) : Prop :=
  ∃ p ∈ s.passwords, p.cleared ∧ p.userId = userId ∧ read < p.stored

/-- The login whose session the step creates. -/
def LoginServer.creates (s : LoginServer) : Input → Option (UserRow × ℕ)
  | .resume request _ =>
      match s.pending.find? (·.request = request) with
      | some ⟨_, .loginSession user read⟩ => some (user, read)
      | _ => none
  | _ => none

/-- A session is created only by a login whose hash was not replaced. -/
def LoginServer.Timely (s : LoginServer) (i : Input) : Prop :=
  ∀ login ∈ s.creates i, ¬s.Replaced login.1.id login.2

instance : DecidablePred LoginServer.NoStale := fun s =>
  inferInstanceAs (Decidable (∀ p ∈ s.passwords, _))

instance (s : LoginServer) (userId : String) (read : ℕ) : Decidable (s.Replaced userId read) :=
  inferInstanceAs (Decidable (∃ p ∈ s.passwords, _))

instance (s : LoginServer) (i : Input) : Decidable (s.Timely i) :=
  inferInstanceAs (Decidable (∀ login ∈ s.creates i, _))

/-! ### Sessions and passwords -/

/-- What holds of sessions, logins and passwords at any time. -/
structure Sound (s : LoginServer) : Prop where
  used : ∀ r ∈ s.db.sessions.rows, r.id ∈ s.used
  logins : ∀ l ∈ s.logins, l.sessionId ∈ s.used
  owner : ∀ l ∈ s.logins, ∀ r, s.db.sessions.find? l.sessionId = some r → r.userId = l.userId
  cleared : ∀ p ∈ s.passwords, p.cleared → ∀ l ∈ s.logins, l.userId = p.userId → l.read < p.stored →
    s.db.sessions.find? l.sessionId = none
  completed : ∀ p ∈ s.passwords, p.completed → p.cleared

theorem Sound.noStale {s : LoginServer} (h : Sound s) : s.NoStale := by
  intro p hp hcompleted l hl huser hread
  have hnone := h.cleared p hp (h.completed p hp hcompleted) l hl huser hread
  simp [Database.getSession, hnone]

theorem sound_init (db : Database) (now : ℕ) : Sound (LoginServer.init db now) where
  used r hr := List.mem_map_of_mem hr
  logins l hl := by
    obtain ⟨r, hr, rfl⟩ := List.mem_map.mp hl
    exact List.mem_map_of_mem hr
  owner l hl r hfind := by
    obtain ⟨r', hr', rfl⟩ := List.mem_map.mp hl
    have hrow : db.sessions.find? r'.id = some r' := Table.find?_eq_some.mpr ⟨hr', rfl⟩
    have heq : some r' = some r := hrow.symm.trans hfind
    exact congrArg SessionRow.userId (Option.some.inj heq).symm
  cleared p hp := absurd hp (by simp [LoginServer.init])
  completed p hp := absurd hp (by simp [LoginServer.init])

section Operations

variable {s : LoginServer} (h : Sound s)
include h

/-- Sessions may be deleted at any time. -/
theorem Sound.shrink {t : LoginServer} (hsub : ∀ r ∈ t.db.sessions.rows, r ∈ s.db.sessions.rows)
    (hused : t.used = s.used) (hlogins : t.logins = s.logins)
      (hpasswords : t.passwords = s.passwords) :
    Sound t := by
  have hfind {id : String} {r : SessionRow} (hr : t.db.sessions.find? id = some r) :
      s.db.sessions.find? id = some r := by
    obtain ⟨hmem, hkey⟩ := Table.find?_eq_some.mp hr
    exact Table.find?_eq_some.mpr ⟨hsub r hmem, hkey⟩
  constructor
  · rw [hused]
    exact fun r hr => h.used r (hsub r hr)
  · rw [hused, hlogins]
    exact h.logins
  · rw [hlogins]
    exact fun l hl r hr => h.owner l hl r (hfind hr)
  · rw [hlogins, hpasswords]
    intro p hp hcleared l hl huser hread
    have hnone := h.cleared p hp hcleared l hl huser hread
    apply Option.eq_none_iff_forall_ne_some.mpr
    intro r hr
    rw [hfind hr] at hnone
    contradiction
  · rw [hpasswords]
    exact h.completed

/-- What a step does besides. -/
theorem Sound.frame {t : LoginServer} (hdb : t.db = s.db) (hused : t.used = s.used)
    (hlogins : t.logins = s.logins) (hpasswords : t.passwords = s.passwords) : Sound t :=
  h.shrink (hdb ▸ fun _ hr => hr) hused hlogins hpasswords

theorem Sound.storeUpdate (id : String) (body : UpdateUserInput) : Sound (storeUpdate id body s) :=
  h.shrink (fun _ hr => hr) rfl rfl rfl

theorem Sound.storePassword (userId passwordHash : String) :
    Sound (storePassword userId passwordHash s) where
  used := h.used
  logins := h.logins
  owner := h.owner
  cleared p hp hcleared := by
    rcases List.mem_append.mp hp with hp | hp
    · exact h.cleared p hp hcleared
    · obtain rfl := List.mem_singleton.mp hp
      contradiction
  completed p hp hcompleted := by
    rcases List.mem_append.mp hp with hp | hp
    · exact h.completed p hp hcompleted
    · obtain rfl := List.mem_singleton.mp hp
      contradiction

theorem Sound.destroyAllUserSessions {userId : String} {stored : ℕ}
    (howner : ∀ p ∈ s.passwords, p.stored = stored → p.userId = userId) :
    Sound (destroyAllUserSessions userId stored s) := by
  have hsmall : Sound { s with db.sessions := s.db.sessions.deleteWhere (·.userId = userId) } :=
    h.shrink (fun r hr => List.mem_of_mem_filter hr) rfl rfl rfl
  constructor
  · exact hsmall.used
  · exact hsmall.logins
  · exact hsmall.owner
  · intro p' hp' hcleared l hl huser hread
    obtain ⟨p, hp, rfl⟩ := List.mem_map.mp hp'
    by_cases hstored : p.stored = stored
    · rw [if_pos hstored] at huser hread
      -- the session of the login, if there is one, is its user's
      apply Option.eq_none_iff_forall_ne_some.mpr
      intro r hr
      have hr' := hsmall.owner l hl r hr
      obtain ⟨-, hkept⟩ := Option.filter_eq_some_iff.mp ((Table.find?_deleteWhere ..).symm.trans hr)
      simp only [hr', huser, howner p hp hstored] at hkept
      simp at hkept
    · rw [if_neg hstored] at hcleared huser hread
      exact hsmall.cleared p hp hcleared l hl huser hread
  · intro p' hp' hcompleted
    obtain ⟨p, hp, rfl⟩ := List.mem_map.mp hp'
    by_cases hstored : p.stored = stored
    · rw [if_pos hstored]
    · rw [if_neg hstored] at hcompleted ⊢
      exact h.completed p hp hcompleted

theorem Sound.complete {stored : ℕ} (hcleared : ∀ p ∈ s.passwords, p.stored = stored → p.cleared) :
    Sound (complete stored s) := by
  constructor
  · exact h.used
  · exact h.logins
  · exact h.owner
  · intro p' hp' hp'cleared
    obtain ⟨p, hp, rfl⟩ := List.mem_map.mp hp'
    by_cases hstored : p.stored = stored
    · rw [if_pos hstored] at hp'cleared ⊢
      exact h.cleared p hp hp'cleared
    · rw [if_neg hstored] at hp'cleared ⊢
      exact h.cleared p hp hp'cleared
  · intro p' hp' hcompleted
    obtain ⟨p, hp, rfl⟩ := List.mem_map.mp hp'
    by_cases hstored : p.stored = stored
    · rw [if_pos hstored]
      exact hcleared p hp hstored
    · rw [if_neg hstored] at hcompleted ⊢
      exact h.completed p hp hcompleted

/-- The identifier is of no earlier session, so the new row is the only one of it. -/
theorem Sound.find?_createSession {id : String} (hid : id ∉ s.used) (cfg : LoginConfig)
    (userId csrfToken j : String) :
    (createSession cfg userId id csrfToken s).db.sessions.find? j =
      if j = id then some ⟨id, userId, csrfToken, s.now + cfg.sessionTtl⟩
      else s.db.sessions.find? j := by
  apply Table.find?_insert
  apply Option.eq_none_iff_forall_ne_some.mpr
  intro r hr
  obtain ⟨hmem, rfl⟩ := Table.find?_eq_some.mp hr
  exact hid (h.used r hmem)

theorem Sound.createSession {id : String} (hid : id ∉ s.used) (cfg : LoginConfig)
    (userId csrfToken : String) : Sound (createSession cfg userId id csrfToken s) := by
  have hother {l : LoginRecord} (hl : l ∈ s.logins) :
      (Login.createSession cfg userId id csrfToken s).db.sessions.find? l.sessionId =
        s.db.sessions.find? l.sessionId := by
    rw [h.find?_createSession hid]
    exact if_neg fun heq : l.sessionId = id => hid (heq ▸ h.logins l hl)
  constructor
  · intro r hr
    have hrow := (h.find?_createSession hid cfg userId csrfToken r.id).symm.trans
      (Table.find?_eq_some.mpr ⟨hr, rfl⟩)
    by_cases hrid : r.id = id
    · exact List.mem_cons.mpr (.inl hrid)
    · rw [if_neg hrid] at hrow
      exact List.mem_cons_of_mem _ (h.used r (Table.find?_eq_some.mp hrow).1)
  · exact fun l hl => List.mem_cons_of_mem _ (h.logins l hl)
  · intro l hl r hr
    exact h.owner l hl r ((hother hl).symm.trans hr)
  · intro p hp hcleared l hl huser hread
    exact (hother hl).trans (h.cleared p hp hcleared l hl huser hread)
  · exact h.completed

/-- A login gets its session; its hash was not replaced before. -/
theorem Sound.addLogin {id : String} (hid : id ∉ s.used) (cfg : LoginConfig)
    {userId : String} {read : ℕ} (csrfToken : String) (htimely : ¬s.Replaced userId read) :
    Sound (addLogin id userId read (Login.createSession cfg userId id csrfToken s)) := by
  have hnew := h.createSession hid cfg userId csrfToken
  have hrow := h.find?_createSession hid cfg userId csrfToken id
  constructor
  · exact hnew.used
  · intro l hl
    rcases List.mem_append.mp hl with hl | hl
    · exact hnew.logins l hl
    · obtain rfl := List.mem_singleton.mp hl
      exact List.mem_cons_self
  · intro l hl r hr
    rcases List.mem_append.mp hl with hl | hl
    · exact hnew.owner l hl r hr
    · obtain rfl := List.mem_singleton.mp hl
      have heq := hrow.symm.trans hr
      rw [if_pos rfl] at heq
      exact congrArg SessionRow.userId (Option.some.inj heq).symm
  · intro p hp hcleared l hl huser hread
    rcases List.mem_append.mp hl with hl | hl
    · exact hnew.cleared p hp hcleared l hl huser hread
    · obtain rfl := List.mem_singleton.mp hl
      exact absurd ⟨p, hp, hcleared, huser.symm, hread⟩ htimely
  · exact hnew.completed

end Operations

/-! ### Requests that wait -/

/-- What a request that has stored a password knows of its record. -/
def Wait.Tracks (clock : ℕ) (passwords : List PasswordRecord) : Wait → Prop
  | .changeDestroy userId stored | .patchDestroy userId stored =>
      stored < clock ∧ ∀ p ∈ passwords, p.stored = stored → p.userId = userId
  | .changeSession _ stored => stored < clock ∧ ∀ p ∈ passwords, p.stored = stored → p.cleared
  | _ => True

/-- Records are added with the time of the step, and earlier ones are only marked. -/
structure Later (clock : ℕ) (past now : List PasswordRecord) : Prop where
  earlier : ∀ p' ∈ now, p'.stored < clock →
    ∃ p ∈ past, p.stored = p'.stored ∧ p.userId = p'.userId ∧ (p.cleared → p'.cleared)
  stored : ∀ p' ∈ now, p'.stored < clock + 1

section Later

variable {clock : ℕ} {past now : List PasswordRecord}

theorem Wait.Tracks.later {w : Wait} (hw : w.Tracks clock past) (h : Later clock past now) :
    w.Tracks (clock + 1) now := by
  cases w with
  | changeDestroy userId stored | patchDestroy userId stored =>
      refine ⟨Nat.lt_succ_of_lt hw.1, ?_⟩
      intro p' hp' hstored
      obtain ⟨p, hp, heq, huser, -⟩ := h.earlier p' hp' (hstored ▸ hw.1)
      exact huser ▸ hw.2 p hp (heq.trans hstored)
  | changeSession userId stored =>
      refine ⟨Nat.lt_succ_of_lt hw.1, ?_⟩
      intro p' hp' hstored
      obtain ⟨p, hp, heq, -, hcleared⟩ := h.earlier p' hp' (hstored ▸ hw.1)
      exact hcleared (hw.2 p hp (heq.trans hstored))
  | _ => trivial

variable (h : ∀ p ∈ past, p.stored < clock)
include h

theorem later_refl : Later clock past past where
  earlier p hp _ := ⟨p, hp, rfl, rfl, id⟩
  stored p hp := Nat.lt_succ_of_lt (h p hp)

/-- Records keep their user and their time when they are marked. -/
theorem later_map {f : PasswordRecord → PasswordRecord}
    (hf : ∀ p, (f p).stored = p.stored ∧ (f p).userId = p.userId ∧ (p.cleared → (f p).cleared)) :
    Later clock past (past.map f) where
  earlier p' hp' _ := by
    obtain ⟨p, hp, rfl⟩ := List.mem_map.mp hp'
    exact ⟨p, hp, (hf p).1.symm, (hf p).2.1.symm, (hf p).2.2⟩
  stored p' hp' := by
    obtain ⟨p, hp, rfl⟩ := List.mem_map.mp hp'
    exact Nat.lt_succ_of_lt ((hf p).1 ▸ h p hp)

theorem later_append (userId : String) :
    Later clock past (past ++ [{ userId, stored := clock }]) where
  earlier p' hp' hold := by
    rcases List.mem_append.mp hp' with hp' | hp'
    · exact ⟨p', hp', rfl, rfl, id⟩
    · obtain rfl := List.mem_singleton.mp hp'
      exact absurd hold (lt_irrefl _)
  stored p' hp' := by
    rcases List.mem_append.mp hp' with hp' | hp'
    · exact Nat.lt_succ_of_lt (h p' hp')
    · obtain rfl := List.mem_singleton.mp hp'
      exact Nat.lt_succ_self _

/-- The request knows the record that it adds. -/
theorem user_of_append {userId : String} :
    ∀ p ∈ past ++ [{ userId, stored := clock }], p.stored = clock → p.userId = userId := by
  intro p hp hstored
  rcases List.mem_append.mp hp with hp | hp
  · exact absurd hstored (h p hp).ne
  · obtain rfl := List.mem_singleton.mp hp
    rfl

end Later

/-- The invariant of all runs. -/
structure Inv (s : LoginServer) : Prop where
  sound : Sound s
  stored : ∀ p ∈ s.passwords, p.stored < s.clock
  waits : ∀ q ∈ s.pending, q.wait.Tracks s.clock s.passwords

section Exec

variable {cfg : LoginConfig} {fresh : Fresh} {s : LoginServer} {w : Wait}

theorem exec_sound (h : Sound s) (hw : w.Tracks s.clock s.passwords) (hid : fresh.id ∉ s.used)
    (htimely : ∀ user read, w = .loginSession user read → ¬s.Replaced user.id read) :
    Sound (exec cfg fresh s w).1 := by
  cases w with
  | loginSession user read =>
      simp only [exec]
      split
      · exact h.addLogin hid cfg fresh.csrfToken (htimely user read rfl)
      · exact h
  | changeStore user passwordHash =>
      simp only [exec]
      split
      · exact h.storePassword user.id passwordHash
      · exact h
  | changeDestroy userId stored => exact h.destroyAllUserSessions hw.2
  | changeSession userId stored =>
      simp only [exec]
      split
      · exact (h.createSession hid cfg userId fresh.csrfToken).complete hw.2
      · exact h
  | patchStore id body passwordHash =>
      simp only [exec]
      split
      · cases passwordHash with
        | none => exact h.storeUpdate id body
        | some passwordHash => exact (h.storeUpdate id body).storePassword id passwordHash
      · exact h
  | patchDestroy id stored =>
      apply (h.destroyAllUserSessions hw.2).complete
      intro p' hp' hstored
      obtain ⟨p, hp, rfl⟩ := List.mem_map.mp hp'
      split at hstored
      · rw [if_pos (by assumption)]
      · contradiction
  | _ => exact h

theorem exec_later (h : ∀ p ∈ s.passwords, p.stored < s.clock) :
    Later s.clock s.passwords (exec cfg fresh s w).1.passwords := by
  cases w with
  | loginSession user read =>
      simp only [exec]
      split <;> exact later_refl h
  | changeStore user passwordHash =>
      simp only [exec]
      split
      · exact later_append h user.id
      · exact later_refl h
  | changeDestroy userId stored =>
      apply later_map h
      intro p
      split <;> simp
  | changeSession userId stored =>
      simp only [exec]
      split
      · apply later_map h
        intro p
        split <;> simp
      · exact later_refl h
  | patchStore id body passwordHash =>
      simp only [exec]
      split
      · cases passwordHash with
        | none => exact later_refl h
        | some passwordHash => exact later_append h id
      · exact later_refl h
  | patchDestroy id stored =>
      simp only [exec, complete, destroyAllUserSessions, List.map_map]
      apply later_map h
      intro p
      simp only [Function.comp]
      by_cases hstored : p.stored = stored <;> simp [hstored]
  | _ => exact later_refl h

theorem exec_tracks (h : ∀ p ∈ s.passwords, p.stored < s.clock)
    (hw : w.Tracks s.clock s.passwords) {w' : Wait} (hnext : (exec cfg fresh s w).2 = .inl w') :
    w'.Tracks (s.clock + 1) (exec cfg fresh s w).1.passwords := by
  cases w with
  | loginVerify user read password =>
      cases user with
      | none => cases hnext
      | some user =>
          simp only [exec] at hnext
          split at hnext
          · cases hnext
          · cases hnext
            trivial
  | changeStore user passwordHash =>
      simp only [exec] at hnext ⊢
      by_cases hsome : (s.db.users.find? user.id).isSome
      · rw [if_pos hsome] at hnext ⊢
        cases hnext
        exact ⟨Nat.lt_succ_self _, user_of_append h⟩
      · rw [if_neg hsome] at hnext
        cases hnext
  | changeDestroy userId stored =>
      cases hnext
      refine ⟨Nat.lt_succ_of_lt hw.1, ?_⟩
      intro p' hp' hstored
      obtain ⟨p, hp, rfl⟩ := List.mem_map.mp hp'
      split at hstored
      · rw [if_pos (by assumption)]
      · contradiction
  | patchStore id body passwordHash =>
      simp only [exec] at hnext ⊢
      by_cases hsome : (s.db.users.find? id).isSome
      · rw [if_pos hsome] at hnext ⊢
        obtain rfl : Wait.patchDestroy id s.clock = w' := by
          simp only at hnext
          split at hnext
          · exact Sum.inl.inj hnext
          · cases hnext
        refine ⟨Nat.lt_succ_self _, ?_⟩
        cases passwordHash with
        | none => exact fun p hp hstored => absurd hstored (h p hp).ne
        | some passwordHash => exact user_of_append h
      · rw [if_neg hsome] at hnext
        cases hnext
  | _ => grind [exec, beginUpdate, Wait.Tracks]

end Exec

/-! ### Runs -/

theorem inv_init (db : Database) (now : ℕ) : Inv (LoginServer.init db now) where
  sound := sound_init db now
  stored p hp := absurd hp (by simp [LoginServer.init])
  waits q hq := absurd hq (by simp [LoginServer.init])

theorem begin_tracks {request : Request} {w : Wait} (h : begin request = .inl w) (clock : ℕ)
    (passwords : List PasswordRecord) : w.Tracks clock passwords := by
  cases request with
  | login username password =>
      simp only [begin] at h
      split at h
      · cases h
        trivial
      · cases h
  | changePassword | patchUser =>
      cases h
      trivial

/-- A step that touches no password. -/
theorem Inv.frame {s t : LoginServer} (h : Inv s) (hsound : Sound t)
    (hclock : t.clock = s.clock + 1)
    (hpasswords : t.passwords = s.passwords)
    (hpending : ∀ q ∈ t.pending, q ∈ s.pending ∨ q.wait.Tracks t.clock t.passwords) : Inv t where
  sound := hsound
  stored p hp := by
    rw [hclock]
    exact Nat.lt_succ_of_lt (h.stored p (hpasswords ▸ hp))
  waits q hq := by
    rcases hpending q hq with hq | hq
    · rw [hclock, hpasswords]
      exact (h.waits q hq).later (later_refl h.stored)
    · exact hq

theorem Inv.step {cfg : LoginConfig} {s : LoginServer} (h : Inv s) {i : Input} (hi : s.Timely i) :
    Inv (step cfg s i) := by
  cases i with
  | request request =>
      simp only [Login.step]
      split
      · next w hw =>
          refine h.frame (h.sound.frame rfl rfl rfl rfl) rfl rfl ?_
          intro q hq
          rcases List.mem_append.mp hq with hq | hq
          · exact .inl hq
          · obtain rfl := List.mem_singleton.mp hq
            exact .inr (begin_tracks hw ..)
      · exact h.frame (h.sound.frame rfl rfl rfl rfl) rfl rfl fun q hq => .inl hq
  | resume request fresh =>
      simp only [Login.step]
      cases hp : s.pending.find? (·.request = request) with
      | none => exact h
      | some p =>
          simp only
          by_cases hid : fresh.id ∈ s.used
          · rw [if_pos hid]
            exact h
          · rw [if_neg hid]
            have hw := h.waits p (List.mem_of_find?_eq_some hp)
            have hsound : Sound (exec cfg fresh s p.wait).1 := exec_sound h.sound hw hid (fun user read hread =>
              hi (user, read) (by
                obtain ⟨number, wait⟩ := p
                obtain rfl : wait = .loginSession user read := hread
                simp [LoginServer.creates, hp]))
            have hlater : Later s.clock s.passwords (exec cfg fresh s p.wait).1.passwords :=
              exec_later h.stored
            have hold (q : Pending) (hq : q ∈ s.pending) := (h.waits q hq).later hlater
            split
            · next w hnext =>
                refine ⟨hsound.frame rfl rfl rfl rfl, hlater.stored, ?_⟩
                intro q hq
                obtain ⟨q', hq', rfl⟩ := List.mem_map.mp hq
                split
                · exact exec_tracks h.stored hw hnext
                · exact hold q' hq'
            · refine ⟨hsound.frame rfl rfl rfl rfl, hlater.stored, ?_⟩
              exact fun q hq => hold q (List.mem_of_mem_filter hq)
  | deleteUser id =>
      exact h.frame (h.sound.shrink (fun r hr => List.mem_of_mem_filter hr) rfl rfl rfl) rfl rfl
        fun q hq => .inl hq
  | deleteSession id =>
      exact h.frame (h.sound.shrink (fun r hr => List.mem_of_mem_filter hr) rfl rfl rfl) rfl rfl
        fun q hq => .inl hq
  | tick now => exact h.frame (h.sound.frame rfl rfl rfl rfl) rfl rfl fun q hq => .inl hq

/-- No session of a login lives on, once a later password change has completed, if no login creates
its session after the change has deleted the sessions. -/
theorem passwords_replaced (cfg : LoginConfig) (db : Database) (now : ℕ) (inputs : List Input)
    (h : Meets (step cfg) LoginServer.Timely (LoginServer.init db now) inputs) :
    Along (step cfg) LoginServer.NoStale (LoginServer.init db now) inputs := by
  have hinv : Along (step cfg) Inv (LoginServer.init db now) inputs :=
    along_of_preserved (fun _ _ hs hi => hs.step hi) (inv_init db now) h
  exact hinv.mono fun _ hs => hs.sound.noStale

/-! ### A login during a reset -/

def exampleConfig : LoginConfig := ⟨fun hash password => hash = password, "dummy", 100⟩

def exampleUsers : Database where
  users := (Table.empty.insert ⟨"u", "steve", "old password", .user, .active⟩).insert
    ⟨"r", "root", "root password", .admin, .active⟩
  sessions := Table.empty.insert ⟨"admin", "r", "csrf", 100⟩
  assignments := []

/-- The login has verified the old password; then an administrator resets it. -/
def exampleReset : List Input :=
  let fresh : Fresh := ⟨"late", "token", "new password"⟩
  let reset : UpdateUserInput := { password := some "new password" }
  [.request (.login "steve" "old password"), .resume 0 fresh, .resume 0 fresh, .resume 0 fresh,
    .request (.patchUser "admin" (some "csrf") "u" reset), .resume 1 fresh, .resume 1 fresh,
    .resume 1 fresh, .resume 1 fresh]

theorem passwords_replaced_reset :
    (run (step exampleConfig) (LoginServer.init exampleUsers 0) exampleReset).replies = [(1, .ok)] ∧
      Along (step exampleConfig) LoginServer.NoStale
        (LoginServer.init exampleUsers 0) exampleReset :=
  ⟨by decide +kernel, passwords_replaced exampleConfig exampleUsers 0 exampleReset (by
    decide +kernel)⟩

/-- The session that the login creates afterwards is accepted. -/
theorem stale_session : ¬Along (step exampleConfig) LoginServer.NoStale
    (LoginServer.init exampleUsers 0) (exampleReset ++ [.resume 0 ⟨"late", "token", ""⟩]) := by
  decide +kernel

end AfkClient.Login

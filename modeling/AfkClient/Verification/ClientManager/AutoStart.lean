import AfkClient.Model.ClientManager

/-! Whether the persisted intent to run is the last one asked for. The writes of two
operations on one account are not ordered, so the older one may be applied last. -/

namespace AfkClient.ClientManager

/-! ### What a step does to the persisted intents -/

/-- `m'` is `m` apart from its clients. -/
structure SameIntents (m m' : ClientManager) : Prop where
  accounts : m'.accounts = m.accounts
  writes : m'.writes = m.writes
  nextWrite : m'.nextWrite = m.nextWrite
  operations : m'.operations = m.operations

theorem updateClient_same (m : ClientManager) (accountId : String) (f : Client → Client) :
    SameIntents m (m.updateClient accountId f) := ⟨rfl, rfl, rfl, rfl⟩

/-- The intents asked for, one after the other. -/
def persistAll (m : ClientManager) (intents : List (String × Bool)) : ClientManager :=
  intents.foldl (fun m intent => m.persistAutoStart intent.1 intent.2) m

/-- Everything a step can do to the intents: ask for some, or apply a write. -/
inductive IntentStep (m : ClientManager) : Input → ClientManager → Prop where
  | asked {i m'} (intents : List (String × Bool)) (h : SameIntents (m.persistAll intents) m')
      (hi : ∀ number, i ≠ .applyWrite number) : IntentStep m i m'
  | applied (number : ℕ) : IntentStep m (.applyWrite number) (m.applyWrite number)

theorem SameIntents.persistAutoStart {m m' : ClientManager} (h : SameIntents m m')
    (accountId : String) (autoStart : Bool) :
    SameIntents (m.persistAutoStart accountId autoStart) (m'.persistAutoStart accountId autoStart) := by
  obtain ⟨haccounts, hwrites, hnext, hops⟩ := h
  constructor <;> simp [ClientManager.persistAutoStart, haccounts, hwrites, hnext, hops]

theorem SameIntents.restartAll {m m' : ClientManager} (h : SameIntents m m') (ids : List String) :
    SameIntents (m.persistAll (ids.map fun id => (id, true)))
      (ids.foldl (fun m id => (m.updateClient id (·.step .restart)).persistAutoStart id true) m') := by
  induction ids generalizing m m' with
  | nil => exact h
  | cons id ids ih =>
      refine ih (SameIntents.persistAutoStart ?_ id true)
      exact ⟨h.accounts, h.writes, h.nextWrite, h.operations⟩

theorem step_intentStep (m : ClientManager) (i : Input) : IntentStep m i (m.step i) := by
  have hkept {i : Input} (hi : ∀ number, i ≠ .applyWrite number) : IntentStep m i m :=
    .asked [] ⟨rfl, rfl, rfl, rfl⟩ hi
  cases i with
  | start accountId =>
      simp only [step, start]
      split
      · exact hkept (by simp)
      · exact .asked [(accountId, true)] ⟨rfl, rfl, rfl, rfl⟩ (by simp)
  | stop accountId =>
      simp only [step, stop]
      split
      · exact hkept (by simp)
      · exact .asked [(accountId, false)] ⟨rfl, rfl, rfl, rfl⟩ (by simp)
  | restart accountId =>
      simp only [step, restart]
      split
      · exact hkept (by simp)
      · exact .asked [(accountId, true)] ⟨rfl, rfl, rfl, rfl⟩ (by simp)
  | restartAllOnline => exact .asked _ (SameIntents.restartAll ⟨rfl, rfl, rfl, rfl⟩ _) (by simp)
  | client accountId input =>
      simp only [step]
      split
      · exact hkept (by simp)
      · exact .asked [] ⟨rfl, rfl, rfl, rfl⟩ (by simp)
  | applyWrite number => exact .applied number

/-! ### Intents -/

/-- Where no write of an account is in flight, its row has the last intent. -/
def Persisted (m : ClientManager) : Prop :=
  ∀ accountId autoStart, m.operations.lookup accountId = some autoStart →
    (∀ w ∈ m.writes.rows, w.accountId ≠ accountId) →
    ∀ account, m.accounts.find? accountId = some account → account.autoStart = autoStart

/-- The writes in flight are numbered below the next one and were asked for. -/
structure WritesOk (m : ClientManager) : Prop where
  number_lt : ∀ w ∈ m.writes.rows, w.number < m.nextWrite
  asked : ∀ w ∈ m.writes.rows, (m.operations.lookup w.accountId).isSome

/-- The input applies the last write in flight of an account, and it is not the intent
asked for last. -/
def AppliesOutdated (m : ClientManager) (i : Input) : Prop :=
  ∃ number w, i = .applyWrite number ∧ m.writes.find? number = some w ∧
    (∀ w' ∈ m.writes.rows, w'.accountId = w.accountId → w' = w) ∧
    (m.accounts.find? w.accountId).isSome ∧
    m.operations.lookup w.accountId ≠ some w.autoStart

/-- A write is applied only when no older, opposite write of its account is in flight. -/
def Ordered (m : ClientManager) (i : Input) : Prop :=
  ∀ number w, i = .applyWrite number → m.writes.find? number = some w →
    ∀ w' ∈ m.writes.rows, w'.accountId = w.accountId → w'.number < number →
      w'.autoStart = w.autoStart

/-- As long as an older, opposite write of the account is in flight, a newer one with
the last intent is too. -/
def Superseded (m : ClientManager) : Prop :=
  ∀ w ∈ m.writes.rows, ∀ autoStart, m.operations.lookup w.accountId = some autoStart →
    w.autoStart ≠ autoStart → ∃ w' ∈ m.writes.rows,
      w'.accountId = w.accountId ∧ w.number < w'.number ∧ w'.autoStart = autoStart

section Asking

variable {m : ClientManager} (accountId : String) (autoStart : Bool)

theorem persistAutoStart_rows (h : m.WritesOk) :
    (m.persistAutoStart accountId autoStart).writes.rows =
      m.writes.rows ++ [⟨m.nextWrite, accountId, autoStart⟩] := by
  have hnew : m.nextWrite ∉ m.writes.rows.map AutoStartWrite.number := by
    intro hmem
    obtain ⟨w, hw, hn⟩ := List.mem_map.mp hmem
    have hlt := h.number_lt w hw
    omega
  rw [persistAutoStart, Table.insert, dif_neg hnew]

theorem persistAutoStart_lookup (other : String) :
    (m.persistAutoStart accountId autoStart).operations.lookup other =
      if other = accountId then some autoStart else m.operations.lookup other := by
  rw [persistAutoStart, List.lookup_cons]
  by_cases h : other = accountId
  · simp [h]
  · have hbeq : (other == accountId) = false := by simpa using h
    rw [hbeq, if_neg h]

theorem WritesOk.ask (h : m.WritesOk) : (m.persistAutoStart accountId autoStart).WritesOk := by
  have hrows := persistAutoStart_rows accountId autoStart h
  constructor
  · intro w hw
    rw [hrows, List.mem_append, List.mem_singleton] at hw
    change w.number < m.nextWrite + 1
    rcases hw with hw | rfl
    · exact (h.number_lt w hw).trans (Nat.lt_succ_self _)
    · exact Nat.lt_succ_self _
  · intro w hw
    rw [hrows, List.mem_append, List.mem_singleton] at hw
    rw [persistAutoStart_lookup]
    split
    · rfl
    rcases hw with hw | rfl
    · exact h.asked w hw
    · exact absurd rfl ‹_›

theorem Persisted.ask (hw : m.WritesOk) (h : m.Persisted) :
    (m.persistAutoStart accountId autoStart).Persisted := by
  have hrows := persistAutoStart_rows accountId autoStart hw
  intro other v hv hidle account haccount
  rw [hrows] at hidle
  rw [persistAutoStart_lookup] at hv
  split at hv
  · rename_i heq
    exact absurd heq.symm (hidle ⟨m.nextWrite, accountId, autoStart⟩ (by simp))
  · exact h other v hv (fun w hw => hidle w (by simp [hw])) account haccount

theorem Superseded.ask (hw : m.WritesOk) (h : m.Superseded) :
    (m.persistAutoStart accountId autoStart).Superseded := by
  have hrows := persistAutoStart_rows accountId autoStart hw
  intro w hmem v hv hne
  rw [hrows] at hmem ⊢
  rw [persistAutoStart_lookup] at hv
  split at hv
  · rename_i heq
    cases hv
    refine ⟨⟨m.nextWrite, accountId, autoStart⟩, by simp, heq.symm, ?_, rfl⟩
    rcases List.mem_append.mp hmem with hold | hnew
    · exact hw.number_lt w hold
    · rw [List.mem_singleton] at hnew
      subst hnew
      exact absurd rfl hne
  · rcases List.mem_append.mp hmem with hold | hnew
    · obtain ⟨w', hw', hrest⟩ := h w hold v hv hne
      exact ⟨w', by simp [hw'], hrest⟩
    · rw [List.mem_singleton] at hnew
      subst hnew
      exact absurd rfl ‹_›

end Asking

section Applying

variable {m : ClientManager} {number : ℕ} {w : AutoStartWrite}

theorem mem_applyWrite (hw : m.writes.find? number = some w) {w' : AutoStartWrite} :
    w' ∈ (m.applyWrite number).writes.rows ↔ w' ∈ m.writes.rows ∧ w' ≠ w := by
  obtain ⟨hmem, hnumber⟩ := Table.find?_eq_some.mp hw
  simp only [applyWrite, hw, Table.delete, List.mem_filter, decide_eq_true_eq]
  refine and_congr_right fun hw' => not_congr ⟨fun heq => ?_, fun heq => heq ▸ hnumber⟩
  have hfind := Table.find?_eq_some.mpr ⟨hw', heq⟩
  rw [hw] at hfind
  exact (Option.some.inj hfind).symm

theorem applyWrite_operations : (m.applyWrite number).operations = m.operations := by
  rw [applyWrite]
  split <;> rfl

theorem applyWrite_account (hw : m.writes.find? number = some w) (accountId : String) :
    (m.applyWrite number).accounts.find? accountId =
      (m.accounts.find? accountId).map fun account =>
        if accountId = w.accountId then { account with autoStart := w.autoStart } else account := by
  simp only [applyWrite, hw]
  exact Table.find?_update m.accounts w.accountId
    (fun account => { account with autoStart := w.autoStart }) (fun _ => rfl) accountId

theorem WritesOk.apply (h : m.WritesOk) (number : ℕ) : (m.applyWrite number).WritesOk := by
  cases hw : m.writes.find? number with
  | none =>
      simp only [applyWrite, hw]
      exact h
  | some w =>
      have hnext : (m.applyWrite number).nextWrite = m.nextWrite := by simp [applyWrite, hw]
      constructor
      · intro w' hw'
        rw [hnext]
        exact h.number_lt w' ((mem_applyWrite hw).mp hw').1
      · intro w' hw'
        rw [applyWrite_operations]
        exact h.asked w' ((mem_applyWrite hw).mp hw').1

/-- Applying a write leaves the intents persisted exactly when it is not outdated. -/
theorem persisted_apply (hok : m.WritesOk) (h : m.Persisted) (number : ℕ) :
    (m.applyWrite number).Persisted ↔ ¬m.AppliesOutdated (.applyWrite number) := by
  cases hw : m.writes.find? number with
  | none =>
      simp only [applyWrite, hw]
      refine iff_of_true h ?_
      rintro ⟨n, w, hn, hfind, -⟩
      cases hn
      rw [hw] at hfind
      cases hfind
  | some w =>
      obtain ⟨hmem, hnumber⟩ := Table.find?_eq_some.mp hw
      constructor
      · rintro hafter ⟨n, w', hn, hfind, hlast, haccount, hne⟩
        cases hn
        rw [hw] at hfind
        cases hfind
        obtain ⟨v, hv⟩ := Option.isSome_iff_exists.mp (hok.asked w hmem)
        obtain ⟨account, haccount⟩ := Option.isSome_iff_exists.mp haccount
        have hrow := applyWrite_account hw w.accountId
        rw [haccount, Option.map_some, if_pos rfl] at hrow
        have hidle : ∀ w' ∈ (m.applyWrite number).writes.rows, w'.accountId ≠ w.accountId := by
          intro w' hw' heq
          obtain ⟨hold, hdiff⟩ := (mem_applyWrite hw).mp hw'
          exact hdiff (hlast w' hold heq)
        rw [← @applyWrite_operations m number] at hv
        have hpersisted := hafter w.accountId v hv hidle _ hrow
        rw [applyWrite_operations] at hv
        exact hne (hv.trans (congrArg some hpersisted.symm))
      · intro hfresh accountId v hv hidle account haccount
        rw [applyWrite_operations] at hv
        rw [applyWrite_account hw] at haccount
        obtain ⟨before, hbefore, rfl⟩ := Option.map_eq_some_iff.mp haccount
        by_cases heq : accountId = w.accountId
        · subst heq
          rw [if_pos rfl]
          by_contra hne
          refine hfresh ⟨number, w, rfl, hw, ?_, by simp [hbefore], ?_⟩
          · intro w' hold hsame
            by_contra hdiff
            exact hidle w' ((mem_applyWrite hw).mpr ⟨hold, hdiff⟩) hsame
          · rw [hv]
            exact fun hsome => hne (Option.some.inj hsome).symm
        · rw [if_neg heq]
          refine h accountId v hv ?_ before hbefore
          intro w' hold hsame
          refine hidle w' ((mem_applyWrite hw).mpr ⟨hold, ?_⟩) hsame
          rintro rfl
          exact heq hsame.symm

theorem Superseded.apply (h : m.Superseded)
    (hordered : m.Ordered (.applyWrite number)) : (m.applyWrite number).Superseded := by
  cases hw : m.writes.find? number with
  | none =>
      simp only [applyWrite, hw]
      exact h
  | some w =>
      obtain ⟨hmem, hnumber⟩ := Table.find?_eq_some.mp hw
      intro w₁ hw₁ v hv hne
      rw [applyWrite_operations] at hv
      obtain ⟨hold, hdiff⟩ := (mem_applyWrite hw).mp hw₁
      obtain ⟨w₂, hw₂, hsame, hlt, hvalue⟩ := h w₁ hold v hv hne
      refine ⟨w₂, (mem_applyWrite hw).mpr ⟨hw₂, ?_⟩, hsame, hlt, hvalue⟩
      -- The applied write is no newer, opposite one of `w₁`'s account.
      rintro rfl
      have hvalue' := hordered number w₂ rfl hw w₁ hold hsame.symm (hnumber ▸ hlt)
      exact hne (hvalue'.trans hvalue)

end Applying

/-! ### Runs -/

theorem not_appliesOutdated_of_superseded {m : ClientManager} (hok : m.WritesOk)
    (h : m.Superseded) (i : Input) : ¬m.AppliesOutdated i := by
  rintro ⟨number, w, -, hw, hlast, -, hne⟩
  obtain ⟨hmem, -⟩ := Table.find?_eq_some.mp hw
  obtain ⟨v, hv⟩ := Option.isSome_iff_exists.mp (hok.asked w hmem)
  obtain ⟨w', hw', hsame, hlt, -⟩ := h w hmem v hv fun heq => hne (heq ▸ hv)
  rw [hlast w' hw' hsame] at hlt
  exact hlt.false

/-- What asking keeps and the clients do not matter for is kept by a step that applies
no write. -/
theorem of_asked {P : ClientManager → Prop} {m m' : ClientManager}
    (hask : ∀ m accountId autoStart, P m → P (m.persistAutoStart accountId autoStart))
    (hsame : ∀ m m', SameIntents m m' → P m → P m') {intents : List (String × Bool)}
    (h : SameIntents (m.persistAll intents) m') (hm : P m) : P m' := by
  refine hsame _ _ h ?_
  clear h
  induction intents generalizing m with
  | nil => exact hm
  | cons intent intents ih => exact ih (hask m intent.1 intent.2 hm)

theorem WritesOk.same {m m' : ClientManager} (h : SameIntents m m') (hm : m.WritesOk) :
    m'.WritesOk := by
  constructor
  · rw [h.writes, h.nextWrite]
    exact hm.number_lt
  · rw [h.writes, h.operations]
    exact hm.asked

theorem Persisted.same {m m' : ClientManager} (h : SameIntents m m') (hm : m.Persisted) :
    m'.Persisted := by
  rw [Persisted, h.writes, h.operations, h.accounts]
  exact hm

theorem Superseded.same {m m' : ClientManager} (h : SameIntents m m') (hm : m.Superseded) :
    m'.Superseded := by
  rw [Superseded, h.writes, h.operations]
  exact hm

theorem step_writesOk {m : ClientManager} (h : m.WritesOk) (i : Input) : (m.step i).WritesOk := by
  generalize hm : m.step i = m'
  have hstep := step_intentStep m i
  rw [hm] at hstep
  cases hstep with
  | asked intents hsame => exact of_asked (fun _ _ _ => .ask _ _) (fun _ _ => .same) hsame h
  | applied number => exact h.apply number

theorem step_persisted {m : ClientManager} (hok : m.WritesOk) (h : m.Persisted) (i : Input) :
    (m.step i).Persisted ↔ ¬m.AppliesOutdated i := by
  generalize hm : m.step i = m'
  have hstep := step_intentStep m i
  rw [hm] at hstep
  cases hstep with
  | asked intents hsame hi =>
      refine iff_of_true ?_ fun ⟨number, _, hn, _⟩ => hi number hn
      have hboth := of_asked (P := fun m => m.WritesOk ∧ m.Persisted)
        (fun _ _ _ hm => ⟨hm.1.ask _ _, hm.2.ask _ _ hm.1⟩)
        (fun _ _ hsame hm => ⟨hm.1.same hsame, hm.2.same hsame⟩) hsame ⟨hok, h⟩
      exact hboth.2
  | applied number => exact persisted_apply hok h number

theorem step_superseded {m : ClientManager} (hok : m.WritesOk) (h : m.Superseded) {i : Input}
    (hi : m.Ordered i) : (m.step i).Superseded := by
  generalize hm : m.step i = m'
  have hstep := step_intentStep m i
  rw [hm] at hstep
  cases hstep with
  | asked intents hsame =>
      have hboth := of_asked (P := fun m => m.WritesOk ∧ m.Superseded)
        (fun _ _ _ hm => ⟨hm.1.ask _ _, hm.2.ask _ _ hm.1⟩)
        (fun _ _ hsame hm => ⟨hm.1.same hsame, hm.2.same hsame⟩) hsame ⟨hok, h⟩
      exact hboth.2
  | applied number => exact h.apply hi

/-- From a manager with no operation yet, every idle account's row has the last intent in
every state exactly when no account's last write in flight is an outdated one; in
particular when no write overtakes an older, opposite one of its account. -/
theorem autoStart_persisted (m : ClientManager) (hwrites : m.writes = Table.empty)
    (hoperations : m.operations = []) (inputs : List Input) :
    (Along step Persisted m inputs ↔ Meets step (fun m i => ¬m.AppliesOutdated i) m inputs) ∧
      (Meets step Ordered m inputs → Along step Persisted m inputs) := by
  have hok : m.WritesOk := by
    constructor <;> simp [hwrites, Table.empty]
  have hpersisted : m.Persisted := by simp [Persisted, hoperations]
  constructor
  · exact along_iff_meets (Q := WritesOk) (D := fun _ _ => True) (fun _ i h _ => step_writesOk h i)
      (fun _ i h hp _ => step_persisted h hp i) hok hpersisted meets_true
  · intro hordered
    have hsuperseded : m.Superseded := by simp [Superseded, hwrites, Table.empty]
    have hall := along_of_preserved (C := Ordered)
      (P := fun m => (m.WritesOk ∧ m.Superseded) ∧ m.Persisted)
      (fun m i h hi => ⟨⟨step_writesOk h.1.1 i, step_superseded h.1.1 h.1.2 hi⟩,
        (step_persisted h.1.1 h.2 i).mpr (not_appliesOutdated_of_superseded h.1.1 h.1.2 i)⟩)
      ⟨⟨hok, hsuperseded⟩, hpersisted⟩ hordered
    exact hall.mono fun _ h => h.2

/-- One registered account. -/
def sampleManager : ClientManager :=
  let account : MinecraftAccount := { id := "a", name := "a", serverHost := "h" }
  let manager : ClientManager := { accounts := Table.empty.insert account }
  manager.register account

/-- A start and a stop whose writes are applied in the other order leave the account to be
started. -/
theorem stop_overtaken_by_start :
    let m := run step sampleManager [.start "a", .stop "a", .applyWrite 1, .applyWrite 0]
    m.writes.rows = [] ∧ m.operations.lookup "a" = some false ∧
      (m.accounts.find? "a").map (·.autoStart) = some true := by
  decide

theorem stop_after_start_persisted :
    Along step Persisted sampleManager [.start "a", .stop "a", .applyWrite 0, .applyWrite 1] := by
  refine (autoStart_persisted sampleManager (by decide) (by decide) _).2 ⟨?_, ?_, ?_, ?_, trivial⟩
  · rintro number w ⟨⟩
  · rintro number w ⟨⟩
  · rintro number w ⟨⟩ - w' - - hlt
    exact absurd hlt (Nat.not_lt_zero _)
  · rintro number w ⟨⟩ - w' hw' - hlt
    have hlast : ∀ w' ∈ (run step sampleManager
        [.start "a", .stop "a", .applyWrite 0]).writes.rows, ¬w'.number < 1 := by decide
    exact absurd hlt (hlast w' hw')

end AfkClient.ClientManager

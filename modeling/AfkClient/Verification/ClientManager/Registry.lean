import AfkClient.Model.ClientManager
import AfkClient.Verification.Client.Settings

/-! Which clients are registered, and with which configuration. -/

namespace AfkClient.ClientManager

open Function (update)

variable (m : ClientManager)

/-- The configuration with which the account is registered. -/
def registered (accountId : String) : Option ClientRuntimeConfig :=
  (m.client? accountId).map (·.config)

/-- The configuration that the account's row asks for. -/
def wanted (accountId : String) : Option ClientRuntimeConfig :=
  (m.accounts.find? accountId).map toRuntimeConfig

theorem wanted_insert {account : MinecraftAccount} (h : m.accounts.find? account.id = none) :
    wanted { m with accounts := m.accounts.insert account } =
      update m.wanted account.id (some (toRuntimeConfig account)) := by
  funext other
  rw [wanted, Table.find?_insert m.accounts account h]
  by_cases ho : other = account.id
  · subst ho
    simp
  · simp [ho, wanted]

theorem wanted_update {accountId : String} {account : MinecraftAccount}
    (h : m.accounts.find? accountId = some account) (f : MinecraftAccount → MinecraftAccount)
    (hf : ∀ a, (f a).id = a.id) :
    wanted { m with accounts := m.accounts.update accountId f hf } =
      update m.wanted accountId (some (toRuntimeConfig (f account))) := by
  funext other
  rw [wanted, Table.find?_update m.accounts accountId f hf]
  by_cases ho : other = accountId
  · subst ho
    simp [h]
  · simp [ho, wanted]

theorem wanted_delete (accountId : String) :
    wanted { m with accounts := m.accounts.delete accountId } = update m.wanted accountId none := by
  funext other
  rw [wanted, Table.find?_delete]
  by_cases ho : other = accountId
  · subst ho
    simp
  · simp [ho, wanted]

theorem updateClient_client? (accountId : String) (f : Client → Client) (other : String) :
    (m.updateClient accountId f).client? other =
      (m.client? other).map fun c => if other = accountId then f c else c := by
  have hfind := m.clients.find?_update accountId
    (fun r : Registered => { r with client := f r.client }) (fun _ => rfl) other
  rw [client?, updateClient, hfind, client?]
  cases m.clients.find? other with
  | none => rfl
  | some r =>
      simp only [Option.map_some]
      split <;> rfl

theorem updateClient_registered (accountId : String) {f : Client → Client}
    (hf : ∀ c, (f c).config = c.config) : (m.updateClient accountId f).registered = m.registered := by
  funext other
  rw [registered, updateClient_client?, Option.map_map, registered]
  congr 1
  funext c
  simp only [Function.comp]
  split
  · exact hf c
  · rfl

theorem register_registered (account : MinecraftAccount) :
    (m.register account).registered =
      update m.registered account.id (some (toRuntimeConfig account)) := by
  funext other
  cases hc : m.client? account.id with
  | some client =>
      simp only [register, hc]
      rw [registered, updateClient_client?]
      by_cases h : other = account.id
      · subst h
        simp [hc, Client.step_updateConfig_config]
      · simp [h, registered]
  | none =>
      have hnone : m.clients.find? account.id = none := by simpa [client?] using hc
      simp only [register, hc]
      rw [registered, client?, Table.find?_insert m.clients _ hnone]
      by_cases h : other = account.id
      · subst h
        simp [Client.init]
      · simp [h, registered, client?]

theorem register_accounts (account : MinecraftAccount) :
    (m.register account).accounts = m.accounts := by
  rw [register]
  split <;> rfl

theorem unregister_accounts (accountId : String) : (m.unregister accountId).accounts = m.accounts := by
  rw [unregister]
  split <;> rfl

theorem restart_accounts (accountId : String) : (m.restart accountId).1.accounts = m.accounts := by
  rw [restart]
  split <;> rfl

theorem unregister_registered (accountId : String) :
    (m.unregister accountId).registered = update m.registered accountId none := by
  funext other
  cases hc : m.client? accountId with
  | some client =>
      simp only [unregister, hc]
      rw [registered, client?, Table.find?_delete]
      by_cases h : other = accountId <;> simp [h, registered, client?]
  | none =>
      simp only [unregister, hc]
      by_cases h : other = accountId
      · subst h
        simp [registered, hc]
      · simp [h]

theorem step_call_config {input : Client.Input} (h : ∀ config, input ≠ .updateConfig config)
    (c : Client) : (c.step input).config = c.config :=
  Client.step_config c h

theorem restart_registered (accountId : String) :
    (m.restart accountId).1.registered = m.registered := by
  simp only [restart]
  split
  · rfl
  · exact updateClient_registered (m.persistAutoStart accountId true) accountId
      (step_call_config (by simp))

theorem applyWrite_wanted (number : ℕ) : (m.applyWrite number).wanted = m.wanted := by
  funext accountId
  simp only [applyWrite]
  split
  · rfl
  · rename_i write _
    rw [wanted, Table.find?_update m.accounts write.accountId
      (fun account => { account with autoStart := write.autoStart }) (fun _ => rfl), wanted]
    rw [Option.map_map]
    congr 1
    funext account
    simp only [Function.comp]
    split <;> rfl

/-- What the manager does by itself changes no configuration. -/
theorem step_registered (i : Input) : (m.step i).registered = m.registered := by
  cases i with
  | start accountId =>
      simp only [step, start]
      split
      · rfl
      · exact updateClient_registered (m.persistAutoStart accountId true) accountId
          (step_call_config (by simp))
  | stop accountId =>
      simp only [step, stop]
      split
      · rfl
      · exact updateClient_registered (m.persistAutoStart accountId false) accountId
          (step_call_config (by simp))
  | restart accountId => exact restart_registered m accountId
  | restartAllOnline =>
      simp only [step, restartAllOnline]
      generalize m.online = ids
      induction ids generalizing m with
      | nil => rfl
      | cons id ids ih =>
          rw [List.foldl_cons, ih]
          exact updateClient_registered m id (step_call_config (by simp))
  | client accountId input =>
      simp only [step]
      split
      · rfl
      · rename_i hm
        refine updateClient_registered m accountId (step_call_config ?_)
        rintro config rfl
        simp [isManaged] at hm
  | applyWrite number =>
      simp only [step, applyWrite]
      split <;> rfl

theorem step_wanted (i : Input) : (m.step i).wanted = m.wanted := by
  cases i with
  | start accountId | stop accountId | restart accountId =>
      simp only [step, start, stop, restart]
      split <;> rfl
  | restartAllOnline =>
      simp only [step, restartAllOnline]
      generalize m.online = ids
      induction ids generalizing m with
      | nil => rfl
      | cons id ids ih =>
          rw [List.foldl_cons, ih]
          rfl
  | client accountId input =>
      simp only [step]
      split <;> rfl
  | applyWrite number => exact applyWrite_wanted m number

end AfkClient.ClientManager

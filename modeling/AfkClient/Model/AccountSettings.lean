import AfkClient.Model.ClientManager

/-! The settings panels of an account (`AccountSettingsPanel.tsx`) and the two requests of a save
(`accounts/service.ts`). A panel has a copy of the account as its page had loaded it; all requests
succeed. What a save does to the running client is left out. -/

namespace AfkClient.AccountSettings

/-- The settings that the button saves. -/
inductive Setting
  | displayName
  | crouchEnabled
  | autoButton
  | autoReconnect
  | autoReturnHome
  | serverHost
  | serverPort
  | autoSellEnabled
  | autoSellIntervalSeconds
  | autoSellCommand
  | spawnerType
  | spawnerActions

abbrev Setting.Value : Setting → Type
  | displayName => String
  | crouchEnabled => Bool
  | autoButton => AutoButton
  | autoReconnect => Bool
  | autoReturnHome => Bool
  | serverHost => String
  | serverPort => ℕ
  | autoSellEnabled => Bool
  | autoSellIntervalSeconds => ℚ
  | autoSellCommand => String
  | spawnerType => String
  | spawnerActions => List (String × SpawnerAction)

abbrev Settings := (setting : Setting) → setting.Value

/-- Which users are assigned. -/
abbrev Assigned := String → Bool

structure Account where
  settings : Settings
  minecraftVersion : String
  assigned : Assigned

/-- The body of a PATCH. -/
structure UpdateAccountInput where
  settings : (setting : Setting) → Option setting.Value
  minecraftVersion : Option String := none

/-- A save whose requests are not through. -/
structure Saving where
  settings : Settings
  assigned : Assigned
  /-- The PATCH is through. -/
  patched : Bool := false

structure Panel where
  userId : String
  admin : Bool
  canManageAccess : Bool
  settings : Settings
  assigned : Assigned
  /-- What the panel was opened with or last saved. -/
  saved : Settings
  savedAssigned : Assigned
  saving : Option Saving := none

/-- What was written to the account. -/
inductive Entry
  | patch (panel : Panel) (settings : Settings)
  | version (minecraftVersion : String)
  | put (panel : Panel) (assigned : Assigned)

structure State where
  account : Account
  panels : List Panel := []
  /-- The latest entry stands first. -/
  log : List Entry := []

inductive Event
  | «open» (userId : String) (admin canManageAccess : Bool) (settings : Settings) (assigned : Assigned)
  | edit (panel : ℕ) (settings : Settings)
  | assign (panel : ℕ) (assigned : Assigned)
  | saveSettings (panel : ℕ)
  | patch (panel : ℕ)
  | put (panel : ℕ)
  | applyVersion (minecraftVersion : String)

def updateAccount (input : UpdateAccountInput) (account : Account) : Account :=
  { account with
    settings := fun setting => (input.settings setting).getD (account.settings setting)
    minecraftVersion := input.minecraftVersion.getD account.minecraftVersion }

/-- The assignments after a PUT; a user who is no admin keeps the own one. -/
def setAssignments (panel : Panel) (userIds : Assigned) (account : Account) : Account :=
  { account with
    assigned := fun userId => userIds userId || (!panel.admin && userId == panel.userId) }

namespace Panel

def saveSettings (panel : Panel) : Panel :=
  match panel.saving with
  | some _ => panel
  | none => { panel with saving := some ⟨panel.settings, panel.assigned, false⟩ }

/-- The panel once its PATCH is through. -/
def patched (saving : Saving) (panel : Panel) : Panel :=
  { panel with
    saved := saving.settings
    saving := if panel.canManageAccess then some { saving with patched := true } else none }

/-- The panel once its PUT is through. -/
def put (saving : Saving) (panel : Panel) : Panel :=
  { panel with savedAssigned := saving.assigned, saving := none }

end Panel

namespace State

def change (i : ℕ) (f : Panel → Panel) (s : State) : State :=
  { s with panels := s.panels.modify i f }

def step (s : State) : Event → State
  | .open userId admin canManageAccess settings assigned =>
      { s with
        panels := s.panels ++
          [⟨userId, admin, canManageAccess, settings, assigned, settings, assigned, none⟩] }
  | .edit i settings => s.change i ({ · with settings := settings })
  | .assign i assigned => s.change i ({ · with assigned := assigned })
  | .saveSettings i => s.change i Panel.saveSettings
  | .patch i =>
      match s.panels[i]? with
      | some panel =>
          match panel.saving with
          | some ⟨settings, assigned, false⟩ =>
              { s with
                account := updateAccount ⟨fun setting => some (settings setting), none⟩ s.account
                log := .patch panel settings :: s.log
              }.change i (Panel.patched ⟨settings, assigned, false⟩)
          | _ => s
      | none => s
  | .put i =>
      match s.panels[i]? with
      | some panel =>
          match panel.saving with
          | some ⟨settings, assigned, true⟩ =>
              { s with
                account := setAssignments panel assigned s.account
                log := .put panel assigned :: s.log
              }.change i (Panel.put ⟨settings, assigned, true⟩)
          | _ => s
      | none => s
  | .applyVersion minecraftVersion =>
      { s with
        account := updateAccount ⟨fun _ => none, some minecraftVersion⟩ s.account
        log := .version minecraftVersion :: s.log }

def run (s : State) (events : List Event) : State := events.foldl step s

end State

end AfkClient.AccountSettings

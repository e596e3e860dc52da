import AfkClient.Library.Chain
import AfkClient.Library.Dictionary
import AfkClient.Library.Grouping
import AfkClient.Library.Journal
import AfkClient.Library.Json
import AfkClient.Library.JsonWeight
import AfkClient.Library.Keyset
import AfkClient.Library.Merging
import AfkClient.Library.Meter
import AfkClient.Library.Method
import AfkClient.Library.Mirror
import AfkClient.Library.Observe
import AfkClient.Library.Packing
import AfkClient.Library.Reader
import AfkClient.Library.Regex
import AfkClient.Library.RegexLanguage
import AfkClient.Library.RegexSearch
import AfkClient.Library.Replica
import AfkClient.Library.Run
import AfkClient.Library.Stringify
import AfkClient.Library.Table
import AfkClient.Library.Task
import AfkClient.Library.Text
import AfkClient.Library.TimerVar
import AfkClient.Library.TokenBucket
import AfkClient.Library.Utf8
import AfkClient.Library.Varint
import AfkClient.Library.Worklist
import AfkClient.Model.AccountCreation
import AfkClient.Model.AccountSettings
import AfkClient.Model.Accounts
import AfkClient.Model.ApiReads
import AfkClient.Model.AuthSession
import AfkClient.Model.Authorization
import AfkClient.Model.AutoButton
import AfkClient.Model.BedrockBehaviors
import AfkClient.Model.BedrockInventory
import AfkClient.Model.BedrockSender
import AfkClient.Model.Behaviors
import AfkClient.Model.BlockedCommands
import AfkClient.Model.BufferedWriter
import AfkClient.Model.CameraSocket
import AfkClient.Model.Client
import AfkClient.Model.ClientManager
import AfkClient.Model.ConsoleBuffer
import AfkClient.Model.ConsoleLogs
import AfkClient.Model.Controller
import AfkClient.Model.DashboardAccounts
import AfkClient.Model.DashboardPreferences
import AfkClient.Model.DisconnectCleanup
import AfkClient.Model.Earnings
import AfkClient.Model.EarningsHistory
import AfkClient.Model.HomeRecovery
import AfkClient.Model.IpBans
import AfkClient.Model.ItemFilter
import AfkClient.Model.Lifecycle
import AfkClient.Model.LiveCam
import AfkClient.Model.Login
import AfkClient.Model.Messages
import AfkClient.Model.MouseButton
import AfkClient.Model.NativeAutoSell
import AfkClient.Model.NoteDocument
import AfkClient.Model.NoteEditor
import AfkClient.Model.Notes
import AfkClient.Model.PacketReader
import AfkClient.Model.PacketRecovery
import AfkClient.Model.Profile
import AfkClient.Model.ReconnectPolicy
import AfkClient.Model.RedactSecrets
import AfkClient.Model.RustBehaviors
import AfkClient.Model.RustMultipliers
import AfkClient.Model.Scheduler
import AfkClient.Model.SellEarnings
import AfkClient.Model.SellMultipliers
import AfkClient.Model.ServerMessageDetails
import AfkClient.Model.Session
import AfkClient.Model.StatusPersistence
import AfkClient.Model.StatusPing
import AfkClient.Model.Users
import AfkClient.Model.WebsiteUpdates
import AfkClient.Verification.AccountCreation
import AfkClient.Verification.Accounts.Registry
import AfkClient.Verification.Accounts.Settings
import AfkClient.Verification.Authorization.Checks
import AfkClient.Verification.Authorization.Queue
import AfkClient.Verification.Authorization.Socket
import AfkClient.Verification.AutoButton.Decoder
import AfkClient.Verification.AutoButton.Sections
import AfkClient.Verification.AutoButton.Store
import AfkClient.Verification.Bedrock.Inventory
import AfkClient.Verification.Bedrock.Mouse
import AfkClient.Verification.Bedrock.Scheduler
import AfkClient.Verification.Bedrock.Sneak
import AfkClient.Verification.Behaviors.Budget
import AfkClient.Verification.Behaviors.Commands
import AfkClient.Verification.Behaviors.Frames
import AfkClient.Verification.Behaviors.History
import AfkClient.Verification.Behaviors.Menus
import AfkClient.Verification.Behaviors.Reassert
import AfkClient.Verification.Behaviors.Replay
import AfkClient.Verification.Behaviors.SaleLog
import AfkClient.Verification.Behaviors.Sales
import AfkClient.Verification.Behaviors.Sneak
import AfkClient.Verification.Behaviors.SneakTimer
import AfkClient.Verification.Behaviors.Steps
import AfkClient.Verification.BlockedCommands
import AfkClient.Verification.BufferedWriter.Batches
import AfkClient.Verification.BufferedWriter.Progress
import AfkClient.Verification.Caches.ApiReads
import AfkClient.Verification.Caches.EarningsHistory
import AfkClient.Verification.Client.Aside
import AfkClient.Verification.Client.Lifecycle
import AfkClient.Verification.Client.PlayerChat
import AfkClient.Verification.Client.Settings
import AfkClient.Verification.Client.Watchdog
import AfkClient.Verification.ClientManager.AutoStart
import AfkClient.Verification.ClientManager.Registry
import AfkClient.Verification.ConsoleBuffer.Merge
import AfkClient.Verification.ConsoleLogs.Paging
import AfkClient.Verification.Controller.Framing
import AfkClient.Verification.Dashboard.Accounts
import AfkClient.Verification.Dashboard.Edits
import AfkClient.Verification.DisconnectCleanup.Release
import AfkClient.Verification.EarningsBuckets
import AfkClient.Verification.IpBans.Cache
import AfkClient.Verification.ItemFilter.Entities
import AfkClient.Verification.LiveCam.Streams
import AfkClient.Verification.LiveCam.Viewer
import AfkClient.Verification.Login.Passwords
import AfkClient.Verification.Multipliers.Agreement
import AfkClient.Verification.Multipliers.Readers
import AfkClient.Verification.Multipliers.Tooltip
import AfkClient.Verification.Native.Acts
import AfkClient.Verification.Native.Events
import AfkClient.Verification.Native.Lease
import AfkClient.Verification.Native.Manual
import AfkClient.Verification.Native.Sale
import AfkClient.Verification.Native.Transfers
import AfkClient.Verification.NoteEditor.Revisions
import AfkClient.Verification.NoteEditor.Texts
import AfkClient.Verification.Notes.Grammar
import AfkClient.Verification.Notes.Links
import AfkClient.Verification.Notes.Updates
import AfkClient.Verification.PacketReader
import AfkClient.Verification.PacketRecovery.Frames
import AfkClient.Verification.Persistence.Earnings
import AfkClient.Verification.Persistence.Status
import AfkClient.Verification.Profile.Badge
import AfkClient.Verification.Profile.Preferences
import AfkClient.Verification.Profile.Updates
import AfkClient.Verification.ReconnectPolicy
import AfkClient.Verification.RedactSecrets
import AfkClient.Verification.RustBehaviors.Budget
import AfkClient.Verification.RustBehaviors.Calm
import AfkClient.Verification.RustBehaviors.Exclusion
import AfkClient.Verification.RustBehaviors.Spawner
import AfkClient.Verification.SellEarnings.Amounts
import AfkClient.Verification.SellEarnings.Payouts
import AfkClient.Verification.ServerMessageDetails
import AfkClient.Verification.Session.Control
import AfkClient.Verification.Session.Ledger
import AfkClient.Verification.Session.Machine
import AfkClient.Verification.Session.Messages
import AfkClient.Verification.StatusPing
import AfkClient.Verification.Users.Admins

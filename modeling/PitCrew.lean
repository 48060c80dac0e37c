import PitCrew.Base.Map
import PitCrew.Base.Machine
import PitCrew.Base.Text
import PitCrew.Base.Check
import PitCrew.Base.Search
import PitCrew.Base.Json
import PitCrew.Theorems.Admission.State
import PitCrew.Theorems.Admission.Course
import PitCrew.Theorems.Admission.World
import PitCrew.Theorems.Admission.Sound
import PitCrew.Theorems.Admission.Budget
import PitCrew.Base.Keyed
import PitCrew.Theorems.Admission.Headroom
import PitCrew.Base.Share
import PitCrew.Theorems.Admission.FairShare
import PitCrew.Theorems.Admission.Lifetime
import PitCrew.Theorems.Admission.Expiry
import PitCrew.Theorems.Admission.Fences
import PitCrew.Theorems.Admission.Atomicity
import PitCrew.Theorems.Admission.Reopen
import PitCrew.Theorems.Admission.Status
import PitCrew.Theorems.Admission.Policy
import PitCrew.Theorems.Admission.Availability
import PitCrew.Theorems.Admission.Tombstones
import PitCrew.Theorems.Admission.Load
import PitCrew.Theorems.Admission.Demand
import PitCrew.Theorems.Admission.Rotation
import PitCrew.Autoscaler.Admission
import PitCrew.Theorems.Autoscaler.Reserve
import PitCrew.Theorems.Autoscaler.Ceiling
import PitCrew.Theorems.Autoscaler.Shares
import PitCrew.Autoscaler.Desired
import PitCrew.Autoscaler.Retirement
import PitCrew.Theorems.Autoscaler.Retirement
import PitCrew.Theorems.Autoscaler.Durability
import PitCrew.Theorems.Autoscaler.Transitions
import PitCrew.Autoscaler.Journal
import PitCrew.Theorems.Autoscaler.Journal
import PitCrew.Theorems.Autoscaler.JournalWindow
import PitCrew.Theorems.Autoscaler.JournalRestore
import PitCrew.Theorems.Autoscaler.JournalSize
import PitCrew.Autoscaler.Observed
import PitCrew.Theorems.Autoscaler.Observed
import PitCrew.Autoscaler.Orphans
import PitCrew.Theorems.Autoscaler.Orphans
import PitCrew.Autoscaler.ControlPlaneGate
import PitCrew.Theorems.Autoscaler.ControlPlaneGate
import PitCrew.Shell.Slots
import PitCrew.Theorems.Shell.Releases
import PitCrew.Autoscaler.Ledgers
import PitCrew.Autoscaler.Registrations
import PitCrew.Autoscaler.Reconcile
import PitCrew.Autoscaler.Recovery
import PitCrew.Theorems.Autoscaler.Revival
import PitCrew.Autoscaler.LedgerFiles
import PitCrew.Theorems.Autoscaler.Books
import PitCrew.Theorems.Autoscaler.Conduct
import PitCrew.Theorems.Autoscaler.Scaling
import PitCrew.Theorems.Autoscaler.LedgerFiles
import PitCrew.Theorems.Autoscaler.Backoff
import PitCrew.Base.JsonValue
import PitCrew.Shell.Inventory
import PitCrew.Base.Utf8
import PitCrew.Base.Percent
import PitCrew.Theorems.Shell.Inventory
import PitCrew.Theorems.Autoscaler.RepositoryURL
import PitCrew.Theorems.Autoscaler.RunnerName
import PitCrew.Shell.Diagnostics
import PitCrew.Theorems.Shell.Diagnostics
import PitCrew.Base.JsonText
import PitCrew.Autoscaler.Document
import PitCrew.Theorems.Autoscaler.Document
import PitCrew.Setup.HostPolicy
import PitCrew.Theorems.Setup.HostPolicy

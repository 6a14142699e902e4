import LeaseCache.Binary
import LeaseCache.Cabinet
import LeaseCache.Cache
import LeaseCache.Decimal.Digits
import LeaseCache.Decimal.Shortest
import LeaseCache.Entry
import LeaseCache.Event
import LeaseCache.Failure
import LeaseCache.FileSystem
import LeaseCache.IntegerType
import LeaseCache.Json.Fault
import LeaseCache.Json.Number
import LeaseCache.Json.Reader
import LeaseCache.Json.Skip
import LeaseCache.Json.Text
import LeaseCache.Json.Typed
import LeaseCache.Key
import LeaseCache.Key.Dynamic
import LeaseCache.Key.Json
import LeaseCache.Lease
import LeaseCache.Memory
import LeaseCache.Path
import LeaseCache.Pool
import LeaseCache.Proofs.AtomicPut
import LeaseCache.Proofs.Baselines
import LeaseCache.Proofs.BinaryCodes
import LeaseCache.Proofs.BrokenOffWrites
import LeaseCache.Proofs.CallsAcrossTurns
import LeaseCache.Proofs.Coherence
import LeaseCache.Proofs.DirectoryMarker
import LeaseCache.Proofs.Effects
import LeaseCache.Proofs.EntryFiles
import LeaseCache.Proofs.EntryNames
import LeaseCache.Proofs.Epochs
import LeaseCache.Proofs.FacadeSpec
import LeaseCache.Proofs.FacadeSteps
import LeaseCache.Proofs.FileOperations
import LeaseCache.Proofs.FolderMap
import LeaseCache.Proofs.FolderSpec
import LeaseCache.Proofs.ForeignWrites
import LeaseCache.Proofs.HeldAccess
import LeaseCache.Proofs.HookSpec
import LeaseCache.Proofs.HookSteps
import LeaseCache.Proofs.HookSweep
import LeaseCache.Proofs.Interleaving
import LeaseCache.Proofs.JsonFaults
import LeaseCache.Proofs.JsonGrammar
import LeaseCache.Proofs.JsonReading
import LeaseCache.Proofs.JsonScalars
import LeaseCache.Proofs.JsonShapes
import LeaseCache.Proofs.JsonSkipping
import LeaseCache.Proofs.JsonTexts
import LeaseCache.Proofs.KnownKeys
import LeaseCache.Proofs.LayeredHooks
import LeaseCache.Proofs.LockPhases
import LeaseCache.Proofs.MarkerSpec
import LeaseCache.Proofs.MasterMarker
import LeaseCache.Proofs.ModificationTimes
import LeaseCache.Proofs.OvertakenPuts
import LeaseCache.Proofs.PhaseGuards
import LeaseCache.Proofs.RegistryHistory
import LeaseCache.Proofs.RegistrySpec
import LeaseCache.Proofs.SettingsReading
import LeaseCache.Proofs.SharedFiles
import LeaseCache.Proofs.SharedTurns
import LeaseCache.Proofs.Stacks
import LeaseCache.Proofs.StoreCalls
import LeaseCache.Proofs.StoreOpening
import LeaseCache.Proofs.Transparency
import LeaseCache.Proofs.Undisturbed
import LeaseCache.Proofs.UndisturbedCalls
import LeaseCache.Proofs.ValuesReadBack
import LeaseCache.Registry
import LeaseCache.Scenario.Answer
import LeaseCache.Scenario.Literal
import LeaseCache.Scenario.Run
import LeaseCache.Scenario.Scene
import LeaseCache.Scenario.Step
import LeaseCache.Scenario.Stock
import LeaseCache.Settings
import LeaseCache.Signal
import LeaseCache.Store.Basic
import LeaseCache.Store.EntryFolder
import LeaseCache.Store.Facade
import LeaseCache.Table
import LeaseCache.Text.Hex
import LeaseCache.Text.Printable
import LeaseCache.Text.Quoted
import LeaseCache.Text.Utf8
import LeaseCache.UniqueName
import LeaseCache.Value
import LeaseCache.Value.Binary
import LeaseCache.Value.Json
import LeaseCache.World

import IndoorFarm.Lib.PathLens
import IndoorFarm.Lib.Covers
import IndoorFarm.Lib.Runs
import IndoorFarm.Lib.SortedEntries
import IndoorFarm.Firebase.Path
import IndoorFarm.Firebase.Node
import IndoorFarm.Firebase.Value
import IndoorFarm.Firebase.Reference
import IndoorFarm.Firebase.LLRBNode
import IndoorFarm.Firebase.LLRBBalance
import IndoorFarm.Firebase.LLRBRemove
import IndoorFarm.Firebase.TreeBuilder
import IndoorFarm.Firebase.SortedDictionary
import IndoorFarm.Firebase.DictionaryEnumerator
import IndoorFarm.Firebase.KeyOrder
import IndoorFarm.Firebase.Children
import IndoorFarm.Firebase.Export
import IndoorFarm.Firebase.ImmutableTree
import IndoorFarm.Firebase.CompoundWrite
import IndoorFarm.Firebase.WriteTree
import IndoorFarm.Firebase.PersistentConnection
import IndoorFarm.Firebase.ConnectionState
import IndoorFarm.Firebase.OutstandingPuts
import IndoorFarm.DataModel
import IndoorFarm.PlantStore
import IndoorFarm.Operations
import IndoorFarm.Isolation
import IndoorFarm.FarmRecord
import IndoorFarm.StartAtomicity
import IndoorFarm.UIDropDown
import IndoorFarm.SettingsScreen
import IndoorFarm.Presses
import IndoorFarm.Refresh
import IndoorFarm.LoadedScreen
import IndoorFarm.RoundTrip
import IndoorFarm.Selection
import IndoorFarm.WrittenSettings
import IndoorFarm.AllOrNothing
import IndoorFarm.App
import IndoorFarm.Transitions
import IndoorFarm.SignIn
import IndoorFarm.Session
import IndoorFarm.InfoWindow
import IndoorFarm.Console

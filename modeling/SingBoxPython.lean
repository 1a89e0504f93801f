import SingBoxPython.Framework.Transition
import SingBoxPython.Framework.Locks
import SingBoxPython.Framework.Keys
import SingBoxPython.Framework.Effect
import SingBoxPython.Framework.Dictionary
import SingBoxPython.Framework.Fallible
import SingBoxPython.Framework.FileTree
import SingBoxPython.Framework.Confinement
import SingBoxPython.Framework.Text
import SingBoxPython.Framework.Delimiter
import SingBoxPython.Framework.Decimal
import SingBoxPython.Framework.Json
import SingBoxPython.Framework.StartOrder
import SingBoxPython.Framework.Tally
import SingBoxPython.Binding.Registry
import SingBoxPython.Binding.RegistrySafety
import SingBoxPython.Binding.NativeCallers
import SingBoxPython.Binding.Freshness
import SingBoxPython.Binding.Startup
import SingBoxPython.Binding.Shutdown
import SingBoxPython.Binding.SingleCaller
import SingBoxPython.Binding.Statistics
import SingBoxPython.Binding.Traffic
import SingBoxPython.Binding.Attribution
import SingBoxPython.Binding.Snapshot
import SingBoxPython.Binding.Wrapper
import SingBoxPython.Binding.WrapperSteps
import SingBoxPython.Binding.WrapperSafety
import SingBoxPython.Binding.Lifecycle
import SingBoxPython.Binding.Deadlock
import SingBoxPython.Binding.Marshal
import SingBoxPython.Core.Outbounds
import SingBoxPython.Core.Launch
import SingBoxPython.Core.TrafficManager
import SingBoxPython.Core.TrafficTotals
import SingBoxPython.Core.Groups
import SingBoxPython.Build.LinkItems
import SingBoxPython.Build.CgoFlags
import SingBoxPython.Sync.Upstream
import SingBoxPython.Sync.Vendor
import SingBoxPython.Sync.Version
import SingBoxPython.Sync.Extract
import SingBoxPython.Sync.Confined
import SingBoxPython.Sync.Command
import SingBoxPython.Sync.Rollback
import SingBoxPython.Sync.History
import SingBoxPython.Sync.Gitignore
import SingBoxPython.Sync.Commit
import SingBoxPython.Release.Workflow
import SingBoxPython.Release.Provenance
import SingBoxPython.Release.Synchronization
import SingBoxPython.Release.Automation
import SingBoxPython.Release.Publication

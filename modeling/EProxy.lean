import EProxy.Framework.System
import EProxy.Framework.Table
import EProxy.Framework.Go
import EProxy.Framework.Journal
import EProxy.Framework.Layout
import EProxy.Framework.Heap
import EProxy.Framework.WorkQueue
import EProxy.Utils.Set
import EProxy.Utils.Collection
import EProxy.Utils.Union
import EProxy.Net.IP
import EProxy.Bpf.Types
import EProxy.Bpf.Maps
import EProxy.Kubernetes.Api
import EProxy.Manager.Service
import EProxy.Manager.Manager
import EProxy.Manager.Script
import EProxy.Manager.Effect
import EProxy.Manager.Steps
import EProxy.Manager.Removal
import EProxy.Manager.Ids
import EProxy.Manager.Frontends
import EProxy.Manager.Atomic
import EProxy.Manager.Touches
import EProxy.Manager.Commute
import EProxy.Manager.Extraction
import EProxy.Manager.TargetPorts
import EProxy.Manager.Slots
import EProxy.Manager.ClusterIP
import EProxy.Manager.SliceEvents
import EProxy.Manager.Store
import EProxy.Manager.Leaks
import EProxy.Ebpf.Connect4
import EProxy.DataPath.Translate
import EProxy.DataPath.Dangling
import EProxy.Kubernetes.Informers
import EProxy.Kubernetes.Controller
import EProxy.Kubernetes.Handling
import EProxy.Kubernetes.Slices
import EProxy.Kubernetes.Deletions
import EProxy.Kubernetes.SpecChanges
import EProxy.Kubernetes.Convergence
import EProxy.Kubernetes.Dispatch
import EProxy.Kubernetes.Retries
import EProxy.Kubernetes.Queue
import EProxy.Kubernetes.Objects
import EProxy.Kubernetes.Process
import EProxy.Kubernetes.Callbacks
import EProxy.Kubernetes.Refinement
import EProxy.Kubernetes.NamespaceIndex
import EProxy.Kubernetes.Survival
import EProxy.Manager.Issued
import EProxy.DataPath.Restart
import EProxy.Kubernetes.Traffic
import EProxy.Kubernetes.InitialSync
import EProxy.Framework.Split
import EProxy.Framework.Mount
import EProxy.Mountinfo.Strconv
import EProxy.Mountinfo.Parser
import EProxy.Kubernetes.Interleaving
import EProxy.Startup.Host
import EProxy.Startup.CheckOrMount
import EProxy.Framework.Triple
import EProxy.Startup.Mounting
import EProxy.Startup.Loader
import EProxy.Startup.LoadAndAttach
import EProxy.Startup.PinLoader
import EProxy.Startup.Starts
import EProxy.Framework.DeltaQueue
import EProxy.Kubernetes.Feed
import EProxy.Kubernetes.Reflector
import EProxy.Kubernetes.Listers
import EProxy.Kubernetes.Lifecycle
import EProxy.Kubernetes.EndToEnd

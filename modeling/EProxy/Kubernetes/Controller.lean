import EProxy.Kubernetes.Informers
import EProxy.Manager.Manager

/-!
# `pkg/kubernetes/controller`

The controller enqueues a key for every object its informers tell it about, and its
workers take keys off the queue and handle them, reading the two listers and calling
the service manager. The queue is a set: it holds a key once, however often the key is
added, and a key whose handling failed is added again (`MaxRetries` is zero, so there
is no limit).

`clusterSystem` is all of this as one system: the informers deliver changes, and the
workers handle keys in any order. A handler that panics ends the process, so it is not
a step.
-/

namespace EProxy

open Framework

/-- `ServiceType`. -/
def serviceType : String := "Service"

/-- `EndpointSliceType`. -/
def endpointSliceType : String := "EndpointSlice"

/-! ### `Enqueue` -/

/-- What an informer hands to the registered handlers. -/
inductive Obj where
  | service (o : Api.Service)
  | endpointSlice (o : Api.EndpointSlice)
  | deletedFinalStateUnknown (key : String)

/-- The type switch of `Enqueue`. -/
def Obj.typep : Obj → String
  | .service _ => serviceType
  | .endpointSlice _ => endpointSliceType
  | .deletedFinalStateUnknown _ => "Unknown"

/-- `cache.MetaNamespaceKeyFunc`; a tombstone has no metadata. -/
def Obj.metaNamespaceKeyFunc : Obj → Option String
  | .service o => some (Object.key o)
  | .endpointSlice o => some (Object.key o)
  | .deletedFinalStateUnknown _ => none

/-- The key `Enqueue` adds to the queue. -/
def Obj.queueKey (obj : Obj) : Option String :=
  obj.metaNamespaceKeyFunc.map fun key => obj.typep ++ "/" ++ key

/-- `Enqueue`. -/
def enqueue (queue : Typed String) (obj : Obj) : Typed String :=
  match obj.queueKey with
  | none => queue
  | some key => queue.add key

/-! ### Handlers -/

/-- The error of a lister, with the name it was asked for. -/
inductive HandlerError where
  | endpointSliceNotFound (name : String)
  | serviceNotFound (name : String)
  deriving DecidableEq

section Handlers

variable (services : Store Api.Service) (slices : Store Api.EndpointSlice) (env : Env)

/-- `strings.Split` at `/`. -/
def splitSlash (key : String) : List String := (key.toList.splitOn '/').map String.ofList

/-- `ServiceHandler`. -/
def serviceHandler (_name _namespace : String) : Mgr (Option HandlerError) := pure none

/-- `EndpointHandler`. -/
def endpointHandler (ns name : String) : Mgr (Option HandlerError) :=
  match slices.get ns name with
  | none => pure (some (.endpointSliceNotFound name))
  | some endpointSlice =>
    match services.get ns endpointSlice.serviceName.text with
    | none => pure (some (.serviceNotFound endpointSlice.serviceName.text))
    | some svc => do
      let bsvc ← Go.lift (newService svc endpointSlice)
      -- both errors have been returned by now, only the timestamp decides
      if endpointSlice.terminating then do
        let _ ← deleteService env bsvc.serviceKey
        pure none
      else do
        let _ ← updateService env bsvc
        pure none

/-- `handler`. -/
def handler (key : String) : Mgr (Option HandlerError) :=
  match splitSlash key with
  | [typ, a, b] =>
    if typ = serviceType then serviceHandler a b
    else if typ = endpointSliceType then endpointHandler services slices env a b
    else pure none
  | _ => pure none

end Handlers

/-! ### The controller and its informers -/

/-- The stores of the informers, the work queue and the manager. -/
structure Cluster where
  serviceLister : Store Api.Service
  endpointsLister : Store Api.EndpointSlice
  workqueue : Typed String
  serviceManager : ServiceManager

/-- A change of one of the two stores. -/
inductive StoreEvent where
  | service (d : Delta Api.Service)
  | endpointSlice (d : Delta Api.EndpointSlice)

/-- The object of a change, as the registered handlers get it. -/
def StoreEvent.obj : StoreEvent → Obj
  | .service (.set o) | .service (.deleted o) => .service o
  | .endpointSlice (.set o) | .endpointSlice (.deleted o) => .endpointSlice o
  | .service (.deletedFinalStateUnknown key)
  | .endpointSlice (.deletedFinalStateUnknown key) => .deletedFinalStateUnknown key

/-- The key that a change puts on the queue. -/
def Delta.queueKey {β : Type} [Object β] (typep : String) : Delta β → Option String
  | .set o | .deleted o => some (typep ++ "/" ++ Object.key o)
  | .deletedFinalStateUnknown _ => none

theorem StoreEvent.queueKey_service (d : Delta Api.Service) :
    (StoreEvent.service d).obj.queueKey = d.queueKey serviceType := by
  cases d <;> rfl

theorem StoreEvent.queueKey_endpointSlice (d : Delta Api.EndpointSlice) :
    (StoreEvent.endpointSlice d).obj.queueKey = d.queueKey endpointSliceType := by
  cases d <;> rfl

/-- An informer changes its store and runs the handler registered with it, `Enqueue`
in all cases. -/
def Cluster.deliver (c : Cluster) (e : StoreEvent) : Cluster :=
  { c with
    serviceLister :=
      match e with
      | .service d => c.serviceLister.process d
      | .endpointSlice _ => c.serviceLister
    endpointsLister :=
      match e with
      | .service _ => c.endpointsLister
      | .endpointSlice d => c.endpointsLister.process d
    workqueue := enqueue c.workqueue e.obj }

/-- `processNextWorkItem` for the key `key`. -/
def Cluster.processNextWorkItem (c : Cluster) (env : Env) (key : String) :
    Outcome MapError Cluster :=
  match (handler c.serviceLister c.endpointsLister env key).run ⟨c.serviceManager, []⟩ with
  | (.ret none, w) =>
    .ret { c with workqueue := c.workqueue.discard key, serviceManager := w.mgr }
  | (.ret (some _), w) =>
    .ret { c with workqueue := (c.workqueue.discard key).add key, serviceManager := w.mgr }
  | (.panic p, _) => .panic p

/-- The steps of the cluster: an informer delivers a change, or a worker handles a key
of the queue. -/
inductive ClusterLabel where
  | event (e : StoreEvent)
  | work (key : String) (env : Env)

/-- The controller with its informers, from empty stores, an empty queue and a new
manager over empty maps. -/
def clusterSystem : System Cluster ClusterLabel where
  init := ⟨Store.empty, Store.empty, Typed.new, newServiceManager Maps.empty⟩
  step c l c' :=
    match l with
    | .event e => c' = c.deliver e
    | .work key env => key ∈ c.workqueue.items ∧ c.processNextWorkItem env key = .ret c'

end EProxy

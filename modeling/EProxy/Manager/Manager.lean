import EProxy.Bpf.Maps
import EProxy.Framework.System
import EProxy.Manager.Service

/-!
# `pkg/manager/manager.go`

The service manager keeps the services it has published and the ids it takes for
used, and writes the two BPF maps. Its methods are computations over a `World`: the
manager together with the journal of the map operations the call has issued.

A call is run in an `Env`, which settles what the call itself does not: the order in
which each of its loops visits a port set, and which of its map operations fail.

`Service` objects are passed by value. `AppendService` writes the id it allocates
into the object it is given, so its model returns the object; the callers of the
repository build a new object for every call and keep no other reference to it.
-/

namespace EProxy

open Framework

/-- `manager.ServiceManager`. -/
structure ServiceManager where
  services : Table String Service
  cacheSerivceId : Table UInt16 Bool
  maps : Maps

/-- `NewServiceManager`. -/
def newServiceManager (maps : Maps) : ServiceManager := ⟨Table.empty, Table.empty, maps⟩

/-- What a call meets: the order of its two possible loops over ports, and the error
the kernel forces on its `n`-th map operation. -/
structure Env where
  deleteOrder : IterOrder Ports
  appendOrder : IterOrder Ports
  fault : ℕ → Option MapError

/-- A call whose operations the kernel fails none of, over ports in the order in which
they were inserted. -/
def Env.calm : Env := ⟨.insertion Ports, .insertion Ports, fun _ => none⟩

/-- The manager and the map operations issued so far. -/
structure World where
  mgr : ServiceManager
  journal : List MapEvent

namespace World

/-- The part of the world that map operations change. -/
def log (w : World) : Log Maps MapOp MapError := ⟨w.mgr.maps, w.journal⟩

/-- The world after map operations that left `st`. -/
def withLog (w : World) (st : Log Maps MapOp MapError) : World :=
  ⟨{ w.mgr with maps := st.mem }, st.journal⟩

/-- `s.cacheSerivceId` after an allocation. -/
def setCache (w : World) (cache : Table UInt16 Bool) : World :=
  ⟨{ w.mgr with cacheSerivceId := cache }, w.journal⟩

/-- `s.services[key] = svc`. -/
def setService (w : World) (key : String) (svc : Service) : World :=
  ⟨{ w.mgr with services := w.mgr.services.set key svc }, w.journal⟩

/-- `delete(s.services, key)`. -/
def eraseService (w : World) (key : String) : World :=
  ⟨{ w.mgr with services := w.mgr.services.erase key }, w.journal⟩

end World

/-- The computations of the manager. -/
abbrev Mgr (α : Type) := Go World MapError α

/-- The handle an operation goes through is nil. -/
def MapOp.nilHandle (m : Maps) : MapOp → Bool
  | .updateService _ _ | .deleteService _ => m.serviceMap.isNone
  | .updateEndpoint _ _ | .deleteEndpoint _ => m.endpointsMap.isNone

/-- `Map.Update` and `Map.Delete`. -/
def mapOp (env : Env) (op : MapOp) : Mgr (Option MapError) :=
  ⟨fun w =>
    if op.nilHandle w.mgr.maps then (.panic .nilDereference, w)
    else (.ret (bpfMachine.issue env.fault w.log op).1,
      w.withLog (bpfMachine.issue env.fault w.log op).2)⟩

/-- The key of a frontend, from the encoded address of its service. -/
def service4Key (ip : UInt32) (port : Ports) : Service4Key :=
  ⟨ip, littleEndianPort port.port, parseProto port.protocol, 0⟩

/-! ### `DeleteService` -/

/-- The loop over the endpoints; positions count from zero. -/
def deleteEndpoints (env : Env) (svc : Service) :
    ℕ → List UInt32 → Mgr (Option (IterError MapError))
  | _, [] => pure none
  | index, _ :: rest => do
    match ← mapOp env (.deleteEndpoint ⟨slot svc.serviceId index⟩) with
    | some err => pure (some (.other err))
    | none => deleteEndpoints env svc (index + 1) rest

/-- The visitor `DeleteService` passes to `Iter`. -/
def deleteVisitor (env : Env) (svc : Service) (port : Ports) :
    Mgr (Option (IterError MapError)) := do
  let ip ← Go.lift (Outcome.ofOption .indexOutOfRange (IP.encoded svc.ipAddress))
  match ← mapOp env (.deleteService (service4Key ip port)) with
  | some err => pure (some (.other err))
  | none => deleteEndpoints env svc 0 svc.endpoints

/-- `DeleteService`. Its result is nil on every path. -/
def deleteService (env : Env) (serviceKey : String) : Mgr (Option MapError) := do
  let w ← Go.get
  match w.mgr.services serviceKey with
  | none => pure none
  | some svc =>
    match svc.ports with
    | none => Go.panic .nilDereference
    | some set => do
      -- an error of the visitor is not returned: `Iter` panics with it
      let _ ← set.iter env.deleteOrder (deleteVisitor env svc)
      Go.modify fun w => w.eraseService serviceKey
      pure none

/-! ### `AppendService` -/

/-- The first id from 1 to 65534 that is not marked in the cache. -/
def freeId (cache : Table UInt16 Bool) : Option ℕ :=
  (List.range' 1 65534).find? fun i => (cache (UInt16.ofNat i)).isNone

/-- The allocation loop. It marks the id the object had, not the one it gets; with
every id marked the object keeps the id it had. -/
def allocate (cache : Table UInt16 Bool) (svc : Service) : Table UInt16 Bool × Service :=
  match freeId cache with
  | some i => (cache.set svc.serviceId true, { svc with serviceId := UInt16.ofNat i })
  | none => (cache, svc)

/-- The loop over the endpoints; positions count from one. -/
def appendEndpoints (env : Env) (svc : Service) (port : Ports) :
    ℕ → List UInt32 → Mgr (Option (IterError MapError))
  | _, [] => pure none
  | index, eip :: rest => do
    let w ← Go.get
    if w.mgr.maps.endpointsMap.isNone then pure none
    else
      match ← mapOp env (.updateEndpoint ⟨slot svc.serviceId (index + 1)⟩
          ⟨eip, littleEndianPort port.targetPort, 0, 0⟩) with
      | some err => pure (some (.other err))
      | none => appendEndpoints env svc port (index + 1) rest

/-- The visitor `AppendService` passes to `Iter`. -/
def appendVisitor (env : Env) (svc : Service) (port : Ports) :
    Mgr (Option (IterError MapError)) := do
  let ip ← Go.lift (Outcome.ofOption .indexOutOfRange (IP.encoded svc.ipAddress))
  let w ← Go.get
  if w.mgr.maps.serviceMap.isNone then pure none
  else
    -- the frontend is written first, with the count of what is still to come
    match ← mapOp env (.updateService (service4Key ip port)
        ⟨svc.serviceId, UInt16.ofNat svc.endpoints.length⟩) with
    | some err => pure (some (.other err))
    | none => appendEndpoints env svc port 0 svc.endpoints

/-- `AppendService` from its loop over the ports on; it returns the object as it
leaves it. -/
def publishService (env : Env) (svc : Service) : Mgr Service :=
  match svc.ports with
  | none => Go.panic .nilDereference
  | some set => do
    let set' ← set.iter env.appendOrder (appendVisitor env svc)
    let svc' := { svc with ports := some set' }
    Go.modify fun w => w.setService svc'.serviceKey svc'
    pure svc'

/-- `AppendService`. -/
def appendService (env : Env) (svc : Service) : Mgr Service := do
  let w ← Go.get
  Go.modify fun w' => w'.setCache (allocate w.mgr.cacheSerivceId svc).1
  publishService env (allocate w.mgr.cacheSerivceId svc).2

/-! ### `UpdateService` -/

/-- `UpdateService`. -/
def updateService (env : Env) (svc : Service) : Mgr (Option MapError) := do
  let w ← Go.get
  match w.mgr.services svc.serviceKey with
  | none => do
    let _ ← appendService env svc
    pure none
  | some old => do
    -- the append follows whatever the deletion returns
    let err ← deleteService env old.serviceKey
    let _ ← appendService env svc
    pure err

/-! ### `OnUpdateEndpointSlice` and `OnDeleteEndpointSlice` -/

/-- The inner loop of `OnUpdateEndpointSlice`. It keeps the addresses that encode to
zero, the other way round from `newServiceAddresses`. -/
def onUpdateAddresses (eps : List UInt32) : List String → Outcome MapError (List UInt32)
  | [] => pure eps
  | ip :: rest => do
    let ret ← Outcome.ofOption .indexOutOfRange (IP.encoded (parseIP ip))
    onUpdateAddresses (if ret = 0 then eps ++ [ret] else eps) rest

/-- The outer loop of `OnUpdateEndpointSlice`; an endpoint without `Ready` is
skipped. -/
def onUpdateEndpoints (eps : List UInt32) : List Api.Endpoint → Outcome MapError (List UInt32)
  | [] => pure eps
  | ep :: rest => do
    let eps' ← if ep.ready = some true then onUpdateAddresses eps ep.addresses else pure eps
    onUpdateEndpoints eps' rest

/-- The key both methods look the service up with: name first, then namespace. -/
def sliceKey (slice : Api.EndpointSlice) : String :=
  slice.serviceName.text ++ "/" ++ slice.ns.text

/-- `OnUpdateEndpointSlice`; its first argument is not used. -/
def onUpdateEndpointSlice (env : Env) (new : Api.EndpointSlice) : Mgr Unit := do
  if new.labels = [] then pure ()
  else do
    let w ← Go.get
    let found := w.mgr.services (sliceKey new)
    let service := found.getD ⟨new.serviceName.text, new.ns.text, 0, [], none, []⟩
    let eps ← Go.lift (onUpdateEndpoints [] new.endpoints)
    -- the service is deleted under its own key, not under the one it was found with
    if found.isSome then do
      let _ ← deleteService env service.serviceKey
      pure ()
    else pure ()
    let service' ← appendService env { service with endpoints := eps }
    Go.modify fun w => w.setService (sliceKey new) service'

/-- `OnDeleteEndpointSlice`. -/
def onDeleteEndpointSlice (env : Env) (slice : Api.EndpointSlice) : Mgr Unit := do
  let w ← Go.get
  match w.mgr.services (sliceKey slice) with
  | none => pure ()
  | some service => do
    let _ ← deleteService env service.serviceKey
    Go.modify fun w => w.eraseService (sliceKey slice)

/-! ### Calls and runs -/

/-- The methods of the manager, with their arguments. -/
inductive Call where
  | updateService (svc : Service)
  | appendService (svc : Service)
  | deleteService (serviceKey : String)
  | onUpdateEndpointSlice (new : Api.EndpointSlice)
  | onDeleteEndpointSlice (slice : Api.EndpointSlice)

/-- The computation a call stands for. -/
def Call.computation (env : Env) : Call → Mgr Unit
  | .updateService svc => (EProxy.updateService env svc).discard
  | .appendService svc => (EProxy.appendService env svc).discard
  | .deleteService key => (EProxy.deleteService env key).discard
  | .onUpdateEndpointSlice new => EProxy.onUpdateEndpointSlice env new
  | .onDeleteEndpointSlice slice => EProxy.onDeleteEndpointSlice env slice

/-- Run a call on a manager, with an empty journal. -/
def ServiceManager.invoke (s : ServiceManager) (env : Env) (call : Call) :
    Outcome MapError Unit × World :=
  (call.computation env).run ⟨s, []⟩

/-- A call and what it meets. -/
structure Invocation where
  call : Call
  env : Env

/-- The manager under calls among `allowed`, from `NewServiceManager` over two empty
maps; a call that panics is recovered. -/
def managerSystem (allowed : Call → Prop) : System ServiceManager Invocation where
  init := newServiceManager Maps.empty
  step s l s' := allowed l.call ∧ (s.invoke l.env l.call).2.mgr = s'

/-- The manager under calls among `allowed` that return normally. -/
def returningSystem (allowed : Call → Prop) : System ServiceManager Invocation where
  init := newServiceManager Maps.empty
  step s l s' := allowed l.call ∧ (s.invoke l.env l.call).1 = .ret () ∧
    (s.invoke l.env l.call).2.mgr = s'

/-- `UpdateService` and `DeleteService` calls. -/
def Call.UpdateOrDelete : Call → Prop
  | .updateService _ | .deleteService _ => True
  | _ => False

end EProxy

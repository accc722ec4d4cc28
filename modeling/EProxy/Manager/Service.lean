import EProxy.Kubernetes.Api
import EProxy.Net.IP
import EProxy.Utils.Set

/-!
# `pkg/manager/service.go`
-/

namespace EProxy

open Framework

/-- `manager.Ports`. -/
structure Ports where
  protocol : Protocol
  port : UInt16
  targetPort : UInt16
  deriving DecidableEq

/-- `manager.Service`; `ports` is an interface value and may be nil. -/
structure Service where
  name : String
  ns : String
  serviceId : UInt16
  ipAddress : IP
  ports : Option (Typed Ports)
  endpoints : List UInt32
  deriving DecidableEq

/-- `Service.ServiceKey`. -/
def Service.serviceKey (svc : Service) : String := svc.ns ++ "/" ++ svc.name

/-- The members of the port set, none for a nil interface. -/
def Service.portList (svc : Service) : List Ports :=
  match svc.ports with
  | some set => set.items
  | none => []

/-- The loop of `NewService` over the ports of the spec. -/
def newServicePorts : List Api.ServicePort → Typed Ports → Typed Ports
  | [], set => set
  | port :: rest, set =>
    newServicePorts rest
      (set.add ⟨port.protocol, UInt16.ofInt port.port, UInt16.ofInt port.targetPort.intValue⟩)

/-- The inner loop of `NewService`: the addresses of one ready endpoint. An address
that is not IPv4 has no four bytes to encode. -/
def newServiceAddresses {ε : Type} (eps : List UInt32) : List String → Outcome ε (List UInt32)
  | [] => pure eps
  | ip :: rest => do
    let ipv4 ← Outcome.ofOption .indexOutOfRange (IP.encoded (parseIP ip))
    newServiceAddresses (if ipv4 ≠ 0 then eps ++ [ipv4] else eps) rest

/-- The outer loop of `NewService`: the ready endpoints. A nil `Ready` is
dereferenced. -/
def newServiceEndpoints {ε : Type} (eps : List UInt32) :
    List Api.Endpoint → Outcome ε (List UInt32)
  | [] => pure eps
  | endpoint :: rest =>
    match endpoint.ready with
    | none => .panic .nilDereference
    | some true => do
      let eps' ← newServiceAddresses eps endpoint.addresses
      newServiceEndpoints eps' rest
    | some false => newServiceEndpoints eps rest

/-- `NewService`. -/
def newService {ε : Type} (service : Api.Service) (endpointSlice : Api.EndpointSlice) :
    Outcome ε Service := do
  let endpoints ← newServiceEndpoints [] endpointSlice.endpoints
  pure
    { name := service.name.text
      ns := service.ns.text
      serviceId := 0
      ipAddress := to4 (parseIP service.clusterIP)
      ports := some (newServicePorts service.ports Typed.new)
      endpoints := endpoints }

/-- The ports of the set are those of the spec, cut to 16 bits. -/
theorem mem_newServicePorts (ports : List Api.ServicePort) (set : Typed Ports) (p : Ports) :
    p ∈ (newServicePorts ports set).items ↔ p ∈ set.items ∨ ∃ q ∈ ports,
      p = ⟨q.protocol, UInt16.ofInt q.port, UInt16.ofInt q.targetPort.intValue⟩ := by
  induction ports generalizing set with
  | nil => simp [newServicePorts]
  | cons q rest ih =>
    rw [newServicePorts, ih, Typed.mem_add, List.exists_mem_cons_iff, or_comm (b := p ∈ set.items),
      or_assoc]

/-- What `NewService` takes from the two objects, when it returns. -/
theorem newService_eq_ret {ε : Type} {service : Api.Service} {slice : Api.EndpointSlice}
    {svc : Service} (h : (newService service slice : Outcome ε Service) = .ret svc) :
    ∃ eps, (newServiceEndpoints [] slice.endpoints : Outcome ε _) = .ret eps ∧
      svc = ⟨service.name.text, service.ns.text, 0, to4 (parseIP service.clusterIP),
        some (newServicePorts service.ports Typed.new), eps⟩ := by
  unfold newService at h
  cases he : (newServiceEndpoints [] slice.endpoints : Outcome ε _) with
  | panic p =>
    rw [he, Outcome.panic_bind] at h
    exact absurd h (by simp)
  | ret eps =>
    rw [he, Outcome.ret_bind, Outcome.pure_eq] at h
    exact ⟨eps, rfl, (Outcome.ret.inj h).symm⟩

end EProxy

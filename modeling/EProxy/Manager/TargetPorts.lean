import EProxy.Manager.Extraction

/-!
# Target ports

A service port names its target by number or by the name of a container port. In the
second case the number is not in the Service: Kubernetes looks the name up in the pods
and writes what it found into the ports of the slice. `PortsAgree` is this relation
between a Service, a slice of it and the container ports of the pods.

`NewService` takes `TargetPort.IntValue()`, for a name `strconv.Atoi` of the name. A
port name contains a letter and is too short to overflow, so what it gets is an error and
`0`, which is no port (`intValue_of_portName`). The entry of a port is therefore the one
Kubernetes resolved exactly when its target is a number (`targetPorts_resolved_iff`).
-/

namespace EProxy

open Framework

namespace Api

/-- The number a slice gives for a port name and protocol. -/
def EndpointSlice.portNumber (slice : EndpointSlice) (name : String) (protocol : Protocol) :
    Option ℤ :=
  (slice.ports.find? fun p => p.name = some name && p.protocol = some protocol).bind (·.port)

/-- A port name as the API server admits it: at most 15 bytes, a lower-case letter among
them. -/
structure PortName (s : String) : Prop where
  short : (Strconv.utf8 s).length ≤ 15
  letter : ∃ c ∈ s.toList, 'a' ≤ c ∧ c ≤ 'z'

/-- The number Kubernetes resolves a target to, given the pods' container ports. -/
def IntOrString.resolve (containerPort : String → ℤ) : IntOrString → ℤ
  | .int val => val
  | .str name => containerPort name

/-- **The Service and the slice agree**: for each service port the slice has the number
its target resolves to, with numbers from 1 to 65535 throughout. -/
structure PortsAgree (svc : Service) (slice : EndpointSlice) (containerPort : String → ℤ) :
    Prop where
  resolved : ∀ q ∈ svc.ports,
    slice.portNumber q.name q.protocol = some (q.targetPort.resolve containerPort)
  target : ∀ q ∈ svc.ports, 1 ≤ q.targetPort.resolve containerPort ∧
    q.targetPort.resolve containerPort ≤ 65535
  port : ∀ q ∈ svc.ports, 1 ≤ q.port ∧ q.port ≤ 65535
  named : ∀ q ∈ svc.ports, ∀ name, q.targetPort = .str name → PortName name

/-! ### `Atoi` of a name -/

/-- A lower-case letter is one byte, and no byte of a numeral. -/
theorem utf8EncodeChar_letter {c : Char} (hlo : 'a' ≤ c) (hhi : c ≤ 'z') :
    ∃ b ∈ String.utf8EncodeChar c,
      ¬ Strconv.IsDigit b ∧ b ≠ Strconv.plus ∧ b ≠ Strconv.minus := by
  have hlo' : 97 ≤ c.val.toNat := Char.le_def.mp hlo
  have hhi' : c.val.toNat ≤ 122 := Char.le_def.mp hhi
  have hbyte : (UInt8.ofNat c.val.toNat).toNat = c.val.toNat := by
    rw [UInt8.toNat_ofNat']
    omega
  have hne : ∀ b : UInt8, b.toNat < 97 → UInt8.ofNat c.val.toNat ≠ b := by
    rintro b hb heq
    rw [← heq, hbyte] at hb
    omega
  refine ⟨UInt8.ofNat c.val.toNat, ?_, fun hd => ?_, hne _ (by decide), hne _ (by decide)⟩
  · rw [String.utf8EncodeChar, if_pos (by omega)]
    exact List.mem_singleton_self _
  · rw [Strconv.IsDigit, hbyte] at hd
    omega

/-- The number `IntValue` gives for a port name. -/
theorem intValue_of_portName {name : String} (h : PortName name) :
    (IntOrString.str name).intValue = 0 := by
  obtain ⟨c, hmem, hlo, hhi⟩ := h.letter
  obtain ⟨b, hb, hdigit, hplus, hminus⟩ := utf8EncodeChar_letter hlo hhi
  refine Strconv.atoi_of_not_numeral (Nat.le_trans h.short (by decide)) fun z hz => ?_
  exact hz.not_mem hdigit hplus hminus (List.mem_flatMap.mpr ⟨c, hmem, hb⟩)

end Api

/-! ### The entries of `NewService` -/

/-- The entry `NewService` adds for a service port. -/
def portEntry (q : Api.ServicePort) : Ports :=
  ⟨q.protocol, UInt16.ofInt q.port, UInt16.ofInt q.targetPort.intValue⟩

/-- A number that is a port survives the cut to 16 bits. -/
theorem toNat_ofInt_port {n : ℤ} (h1 : 1 ≤ n) (h2 : n ≤ 65535) :
    ((UInt16.ofInt n).toNat : ℤ) = n := by
  have hmod : n % 65536 = n := Int.emod_eq_of_lt (by omega) (by omega)
  simp [UInt16.ofInt, hmod]
  omega

/-- **Exactly when target ports are resolved.** For every Service and slice that agree,
when `NewService` returns: the entry of each service port is in `Ports` with the number
the slice gives for the port's name, exactly when every target port is a number. -/
theorem targetPorts_resolved_iff {svc : Api.Service} {slice : Api.EndpointSlice}
    {containerPort : String → ℤ} (h : Api.PortsAgree svc slice containerPort) {bsvc : Service}
    (hnew : (newService svc slice : Outcome MapError Service) = .ret bsvc) :
    (∀ q ∈ svc.ports, portEntry q ∈ bsvc.portList ∧
      some ((portEntry q).targetPort.toNat : ℤ) = slice.portNumber q.name q.protocol) ↔
    ∀ q ∈ svc.ports, ∃ n, q.targetPort = .int n := by
  obtain ⟨eps, -, rfl⟩ := newService_eq_ret hnew
  constructor
  · intro hall q hq
    cases htarget : q.targetPort with
    | int n => exact ⟨n, rfl⟩
    | str name =>
      -- the entry has target port zero, and the slice has a port
      have hzero : (portEntry q).targetPort = 0 := by
        rw [portEntry, htarget, Api.intValue_of_portName (h.named q hq name htarget)]
        rfl
      have hnum := (hall q hq).2
      rw [hzero, h.resolved q hq] at hnum
      have hpos := (h.target q hq).1
      rw [← Option.some.inj hnum] at hpos
      exact absurd hpos (by decide)
  · -- a number is its own resolution, and fits
    intro hall q hq
    refine ⟨(mem_newServicePorts svc.ports Typed.new _).mpr (Or.inr ⟨q, hq, rfl⟩), ?_⟩
    obtain ⟨n, hn⟩ := hall q hq
    have hrange := h.target q hq
    rw [h.resolved q hq, portEntry, hn]
    rw [hn] at hrange
    exact congrArg some (toNat_ofInt_port hrange.1 hrange.2)

theorem portsAgree_web :
    Api.PortsAgree webObject (webSlice ⟨"web-a", by decide⟩ "10.244.0.1") fun _ => 8080 where
  resolved := by decide
  target := by decide
  port := by decide
  named q hq name hname := by
    obtain rfl := List.mem_singleton.mp hq
    exact absurd hname (by simp)

/-- The port of the web service is entered with the number its slice has. -/
theorem targetPorts_resolved_web :
    some ((portEntry ⟨"http", .tcp, 80, .int 8080⟩).targetPort.toNat : ℤ) =
      (webSlice ⟨"web-a", by decide⟩ "10.244.0.1").portNumber "http" .tcp := by
  have hnumeric : ∀ q ∈ webObject.ports, ∃ n, q.targetPort = .int n := by
    intro q hq
    obtain rfl := List.mem_singleton.mp hq
    exact ⟨8080, rfl⟩
  exact ((targetPorts_resolved_iff portsAgree_web
    (newService_eq_serviceOf ⟨by decide, by decide⟩ webObject)).mpr hnumeric _
      List.mem_cons_self).2

/-- The web service with its target port by name. -/
def namedWeb : Api.Service :=
  { webObject with ports := [⟨"http", .tcp, 80, .str "web-port"⟩] }

/-- The named target is container port 8080, which the slice says too, and is entered as
port zero. -/
theorem named_targetPort_is_zero :
    Api.PortsAgree namedWeb (webSlice ⟨"web-a", by decide⟩ "10.244.0.1") (fun _ => 8080) ∧
    (newService namedWeb (webSlice ⟨"web-a", by decide⟩ "10.244.0.1") :
      Outcome MapError Service) =
        .ret (serviceOf namedWeb (webSlice ⟨"web-a", by decide⟩ "10.244.0.1")) ∧
    (serviceOf namedWeb (webSlice ⟨"web-a", by decide⟩ "10.244.0.1")).portList =
      [⟨.tcp, 80, 0⟩] ∧
    (webSlice ⟨"web-a", by decide⟩ "10.244.0.1").portNumber "http" .tcp = some 8080 := by
  refine ⟨⟨by decide, by decide, by decide, fun q hq name hname => ?_⟩,
    newService_eq_serviceOf ⟨by decide, by decide⟩ namedWeb, by decide, by decide⟩
  obtain rfl := List.mem_singleton.mp hq
  obtain rfl : "web-port" = name := Api.IntOrString.str.inj hname
  exact ⟨by decide, 'w', by decide, by decide, by decide⟩

end EProxy

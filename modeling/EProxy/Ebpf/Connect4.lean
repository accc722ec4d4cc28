import EProxy.Bpf.Maps

/-!
# `ebpf/src/service.c`

The program the kernel runs at every `connect` of an IPv4 socket. It reads the two
maps as tables of bytes, through the records of `kernel/common.h`; the host is
little-endian. Fields of network byte order are words whose bytes in memory are in
that order.

`connect4` returns 1 on every path, which lets the connection proceed. What differs
is the address it proceeds to, and `Exit` names the path taken. `connect4_eq` restates
the program over the entries the control plane wrote.
-/

namespace EProxy

open Framework

/-- `SOCK_STREAM`. -/
def sockStream : UInt32 := 1

/-- `SOCK_DGRAM`. -/
def sockDgram : UInt32 := 2

/-- The fields of `struct bpf_sock_addr` the program uses. -/
structure BpfSockAddr where
  userIp4 : UInt32
  userPort : UInt32
  type : UInt32
  protocol : UInt32
  deriving DecidableEq

/-- `struct lb4_key`. -/
structure Lb4Key where
  address : UInt32
  dport : UInt16
  proto : UInt8
  pad : UInt8

/-- `struct lb4_backend`. -/
structure Lb4Backend where
  address : UInt32
  port : UInt16
  proto : UInt8
  pad : UInt8

/-- `struct lb4_service`. -/
structure Lb4Service where
  serviceId : UInt16
  count : UInt16

instance : Layout Lb4Key where
  encode k := bytes32 k.address ++ bytes16 k.dport ++ [k.proto, k.pad]
  decode
    | [a, b, c, d, e, f, g, h] => some ⟨word32 a b c d, word16 e f, g, h⟩
    | _ => none
  decode_encode k := by simp [bytes32, bytes16]

instance : Layout Lb4Backend where
  encode v := bytes32 v.address ++ bytes16 v.port ++ [v.proto, v.pad]
  decode
    | [a, b, c, d, e, f, g, h] => some ⟨word32 a b c d, word16 e f, g, h⟩
    | _ => none
  decode_encode v := by simp [bytes32, bytes16]

instance : Layout Lb4Service where
  encode v := bytes16 v.serviceId ++ bytes16 v.count
  decode
    | [a, b, c, d] => some ⟨word16 a b, word16 c d⟩
    | _ => none
  decode_encode v := by simp [bytes16]

/-- The path by which the program returns. -/
inductive Exit where
  | unknownSocketType
  | noService
  | noEndpoints
  /-- The service has endpoints but the chosen one is not in the map. -/
  | danglingBackend
  | translated
  deriving DecidableEq

/-- `(bpf_get_prandom_u32() % count)+1`, truncated to 16 bits. -/
def backendIndex (prandom : UInt32) (count : UInt16) : UInt16 :=
  (prandom % count.toUInt32 + 1).toUInt16

/-- `connect4`, with the random number it draws. -/
def connect4 (services backends : Table (List UInt8) (List UInt8)) (prandom : UInt32)
    (ctx : BpfSockAddr) : Exit × BpfSockAddr :=
  if ctx.type ≠ sockStream ∧ ctx.type ≠ sockDgram then (.unknownSocketType, ctx)
  else
    let key : Lb4Key := ⟨ctx.userIp4, ctx.userPort.toUInt16, ctx.protocol.toUInt8, 0⟩
    match (Layout.lookup services key : Option Lb4Service) with
    | none => (.noService, ctx)
    | some value =>
      if value.count = 0 then (.noEndpoints, ctx)
      else
        let index := backendIndex prandom value.count
        -- the shift is of a promoted 16-bit value, the result is stored in 32 bits
        let blackendId : UInt32 := value.serviceId.toUInt32 <<< 16 ||| index.toUInt32
        match (Layout.lookup backends blackendId : Option Lb4Backend) with
        | none => (.danglingBackend, ctx)
        | some endValue =>
          (.translated,
            { ctx with userIp4 := endValue.address, userPort := endValue.port.toUInt32 })

/-! ### The maps as the kernel sees them -/

/-- The bytes of `eproxy_lb4_services`. -/
def Maps.kernelServices (m : Maps) : Table (List UInt8) (List UInt8) :=
  match m.serviceMap with
  | some t => Layout.image t
  | none => Table.empty

/-- The bytes of `eproxy_lb4_backends`. -/
def Maps.kernelBackends (m : Maps) : Table (List UInt8) (List UInt8) :=
  match m.endpointsMap with
  | some t => Layout.image t
  | none => Table.empty

/-- `connect4` on the maps the control plane writes. -/
def Maps.connect4 (m : Maps) (prandom : UInt32) (ctx : BpfSockAddr) : Exit × BpfSockAddr :=
  EProxy.connect4 m.kernelServices m.kernelBackends prandom ctx

/-- The frontend key of the address a socket connects to. -/
def BpfSockAddr.frontendKey (ctx : BpfSockAddr) : Service4Key :=
  ⟨ctx.userIp4, ctx.userPort.toUInt16, ctx.protocol.toUInt8, 0⟩

theorem lookup_kernelServices (m : Maps) (key : Lb4Key) :
    (Layout.lookup m.kernelServices key : Option Lb4Service) =
      (m.frontend ⟨key.address, key.dport, key.proto, key.pad⟩).map
        fun v => ⟨v.serviceID, v.count⟩ := by
  unfold Maps.kernelServices Maps.frontend
  cases m.serviceMap with
  | none => rfl
  | some t =>
    exact Layout.lookup_image t (k := ⟨key.address, key.dport, key.proto, key.pad⟩) rfl _
      fun v => Layout.decode_encode (⟨v.serviceID, v.count⟩ : Lb4Service)

theorem lookup_kernelBackends (m : Maps) (id : UInt32) :
    (Layout.lookup m.kernelBackends id : Option Lb4Backend) =
      (m.backend ⟨id⟩).map fun v => ⟨v.endpointIP, v.endpointPort, v.proto, v.pad⟩ := by
  unfold Maps.kernelBackends Maps.backend
  cases m.endpointsMap with
  | none => rfl
  | some t =>
    exact Layout.lookup_image t (k := ⟨id⟩) rfl _
      fun v => Layout.decode_encode
        (⟨v.endpointIP, v.endpointPort, v.proto, v.pad⟩ : Lb4Backend)

/-- **The data path over the control plane's entries.** The two programs lay their
records out alike, so the reader meets the entries the writer wrote. -/
theorem connect4_eq (m : Maps) (prandom : UInt32) (ctx : BpfSockAddr)
    (htype : ctx.type = sockStream ∨ ctx.type = sockDgram) :
    m.connect4 prandom ctx =
      match m.frontend ctx.frontendKey with
      | none => (.noService, ctx)
      | some v =>
        if v.count = 0 then (.noEndpoints, ctx)
        else
          match m.backend ⟨slot v.serviceID (backendIndex prandom v.count).toNat⟩ with
          | none => (.danglingBackend, ctx)
          | some b =>
            (.translated,
              { ctx with userIp4 := b.endpointIP, userPort := b.endpointPort.toUInt32 }) := by
  rw [Maps.connect4, connect4, if_neg (by tauto)]
  simp only [lookup_kernelServices]
  rw [← BpfSockAddr.frontendKey]
  cases m.frontend ctx.frontendKey with
  | none => rfl
  | some v =>
    by_cases hc : v.count = 0
    · simp [hc]
    · simp only [Option.map_some, hc, if_false]
      -- the program computes the slot key in 32 bits, `slot` from a natural number
      rw [lookup_kernelBackends, slot, show UInt32.ofNat (backendIndex prandom v.count).toNat =
        (backendIndex prandom v.count).toUInt32 by simp]
      cases m.backend _ with
      | none => rfl
      | some b => rfl

/-! ### The chosen position -/

/-- The position drawn from `count` endpoints is `r mod count`, counted from one; it
does not wrap. -/
theorem backendIndex_toNat (prandom : UInt32) {count : UInt16} (h : count ≠ 0) :
    (backendIndex prandom count).toNat = prandom.toNat % count.toNat + 1 := by
  have hpos : 0 < count.toNat := Nat.pos_of_ne_zero fun h0 => h (UInt16.toNat_inj.mp h0)
  have hlt : prandom.toNat % count.toNat < count.toNat := Nat.mod_lt _ hpos
  have hcount := count.toNat_lt
  rw [backendIndex, UInt32.toNat_toUInt16, UInt32.toNat_add, UInt32.toNat_mod,
    UInt16.toNat_toUInt32, show (1 : UInt32).toNat = 1 from rfl]
  omega

end EProxy

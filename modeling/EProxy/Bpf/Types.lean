import EProxy.Framework.Layout

/-!
# `pkg/bpf/types.go` and `pkg/utils/utils.go`

The records the control plane writes to the two BPF maps, with their memory
layout: the fields in declaration order, each in the byte order of the host. They
have no padding besides the `pad` fields they declare.

`slot` is the key of a backend, the service id in its upper half and the position
of the endpoint in its lower half. Positions start at one, and `slot_toNat` and
`slot_inj` hold for the positions that fit the lower half; a position that does
not fit is OR-ed into the id.
-/

namespace EProxy

open Framework

/-- `v1.Protocol`, a string of which the API admits three values. -/
inductive Protocol where
  | tcp
  | udp
  | sctp
  | other (name : String)
  deriving DecidableEq

/-- The protocols the API admits. -/
def Protocol.Admitted : Protocol → Prop
  | .other _ => False
  | _ => True

instance (p : Protocol) : Decidable p.Admitted :=
  match p with
  | .tcp => .isTrue trivial
  | .udp => .isTrue trivial
  | .sctp => .isTrue trivial
  | .other _ => .isFalse id

/-- `bpf.Service4Key`. -/
structure Service4Key where
  serviceIP : UInt32
  servicePort : UInt16
  proto : UInt8
  pad : UInt8
  deriving DecidableEq

/-- `bpf.Service4Value`. -/
structure Service4Value where
  serviceID : UInt16
  count : UInt16
  deriving DecidableEq

/-- `bpf.Endpoint4Key`: the upper half the service id, the lower half the endpoint. -/
structure Endpoint4Key where
  endpointID : UInt32
  deriving DecidableEq

/-- `bpf.Endpoint4Value`. -/
structure Endpoint4Value where
  endpointIP : UInt32
  endpointPort : UInt16
  proto : UInt8
  pad : UInt8
  deriving DecidableEq

/-- `bpf.ParseProto`. -/
def parseProto : Protocol → UInt8
  | .tcp => 6
  | .udp => 17
  | .sctp => 132
  | .other _ => 0

/-- `utils.LittleEndianPort`. -/
def littleEndianPort (port : UInt16) : UInt16 :=
  let h := port &&& 0xff
  let l := port >>> 8
  h <<< 8 ||| l

/-- `uint32(id)<<16 | uint32(index)`. -/
def slot (id : UInt16) (index : ℕ) : UInt32 := id.toUInt32 <<< 16 ||| UInt32.ofNat index

/-! ### Ports and protocols -/

/-- Swapping the bytes of a port puts it in network order. -/
theorem littleEndianPort_eq_htons (port : UInt16) : littleEndianPort port = htons port := by
  apply UInt16.toNat_inj.mp
  have hp := port.toNat_lt
  have hand : port.toNat &&& 255 = port.toNat % 2 ^ 8 := Nat.and_two_pow_sub_one_eq_mod _ 8
  rw [toNat_htons, littleEndianPort, UInt16.toNat_or, UInt16.toNat_shiftLeft, UInt16.toNat_and,
    UInt16.toNat_shiftRight, show (8 : UInt16).toNat % 16 = 8 from rfl,
    show (255 : UInt16).toNat = 255 from rfl, hand, Nat.shiftRight_eq_div_pow,
    Nat.mod_eq_of_lt (by rw [Nat.shiftLeft_eq]; omega), Nat.or_comm,
    or_shiftLeft_of_lt (by omega)]
  omega

/-- `parseProto` tells the admitted protocols apart. -/
theorem parseProto_inj {p q : Protocol} (hp : p.Admitted) (hq : q.Admitted)
    (h : parseProto p = parseProto q) : p = q := by
  cases p <;> cases q <;> first | rfl | exact absurd h (by decide) | exact hp.elim | exact hq.elim

/-! ### Slots -/

theorem slot_toNat (id : UInt16) {index : ℕ} (h : index < 65536) :
    (slot id index).toNat = id.toNat * 65536 + index := by
  have hid := id.toNat_lt
  rw [slot, UInt32.toNat_or, UInt32.toNat_shiftLeft, UInt32.toNat_ofNat', UInt16.toNat_toUInt32,
    show (16 : UInt32).toNat % 32 = 16 from rfl,
    Nat.mod_eq_of_lt (by rw [Nat.shiftLeft_eq]; omega), Nat.mod_eq_of_lt (by omega),
    Nat.or_comm, or_shiftLeft_of_lt (by omega)]
  omega

/-- Slots that fit their half tell both the service and the position. -/
theorem slot_inj {id id' : UInt16} {i j : ℕ} (hi : i < 65536) (hj : j < 65536)
    (h : slot id i = slot id' j) : id = id' ∧ i = j := by
  have hn := congrArg UInt32.toNat h
  rw [slot_toNat id hi, slot_toNat id' hj] at hn
  refine ⟨UInt16.toNat_inj.mp ?_, ?_⟩ <;> omega

/-! ### Counts -/

/-- `uint16(len(svc.Endpoints))` for a number that fits. -/
theorem toNat_count {n : ℕ} (h : n ≤ 65535) : (UInt16.ofNat n).toNat = n := by
  rw [UInt16.toNat_ofNat', Nat.mod_eq_of_lt (by omega)]

theorem count_ne_zero {n : ℕ} (h₁ : 1 ≤ n) (h₂ : n ≤ 65535) : UInt16.ofNat n ≠ 0 := by
  intro h
  have hn := congrArg UInt16.toNat h
  rw [toNat_count h₂] at hn
  exact absurd hn (Nat.ne_of_gt h₁)

/-! ### Memory layout -/

instance : Layout Service4Key where
  encode k := bytes32 k.serviceIP ++ bytes16 k.servicePort ++ [k.proto, k.pad]
  decode
    | [a, b, c, d, e, f, g, h] => some ⟨word32 a b c d, word16 e f, g, h⟩
    | _ => none
  decode_encode k := by simp [bytes32, bytes16]

instance : Layout Service4Value where
  encode v := bytes16 v.serviceID ++ bytes16 v.count
  decode
    | [a, b, c, d] => some ⟨word16 a b, word16 c d⟩
    | _ => none
  decode_encode v := by simp [bytes16]

instance : Layout Endpoint4Key where
  encode k := bytes32 k.endpointID
  decode
    | [a, b, c, d] => some ⟨word32 a b c d⟩
    | _ => none
  decode_encode k := by simp [bytes32]

instance : Layout Endpoint4Value where
  encode v := bytes32 v.endpointIP ++ bytes16 v.endpointPort ++ [v.proto, v.pad]
  decode
    | [a, b, c, d, e, f, g, h] => some ⟨word32 a b c d, word16 e f, g, h⟩
    | _ => none
  decode_encode v := by simp [bytes32, bytes16]

end EProxy

import Mathlib.Data.Int.CardIntervalMod
import EProxy.Ebpf.Connect4
import EProxy.Manager.Steps

/-!
# From `AppendService` to `connect4`

The control plane writes the maps, the data path reads them. `Dials` says that a
socket connects to a port of a service, in terms of the bytes the kernel hands to the
program. `connect4_of_publishes` is what such a socket is redirected to once the
service is published, whatever the maps held before: endpoint `r mod n`, at the target
port of the port `AppendService` visited last, since all ports of a service share its
backends.

Two consequences: the choice among the endpoints is even (`connect4_balances`), and a
socket reaches the target port of the port it dials, for every visiting order, exactly
when all ports of the service have the same one (`connect4_targetPort_iff`).
-/

namespace EProxy

open Framework Machine

/-- The protocol numbers of the Internet Protocol, for the admitted protocols. -/
def ipProto : Protocol → UInt32
  | .tcp => 6
  | .udp => 17
  | .sctp => 132
  | .other _ => 0

/-- The socket connects to the port `p` of `svc`: it is of a type the program looks
at, and its address, port and protocol are those of the service in network byte
order. -/
structure Dials (ctx : BpfSockAddr) (svc : Service) (p : Ports) : Prop where
  type : ctx.type = sockStream ∨ ctx.type = sockDgram
  address : bytes32 ctx.userIp4 = svc.ipAddress
  port : ctx.userPort = (htons p.port).toUInt32
  protocol : ctx.protocol = ipProto p.protocol

/-- The number of random values, of all those of 32 bits, that select position `i` of
`n` endpoints. -/
def draws (n i : ℕ) : ℕ :=
  ((Finset.range (2 ^ 32)).filter fun r =>
    (backendIndex (UInt32.ofNat r) (UInt16.ofNat n)).toNat = i + 1).card

/-! ### Addresses on both sides -/

variable {ctx : BpfSockAddr} {svc : Service} {port : Ports}

theorem Dials.vip (h : Dials ctx svc port) : svc.vip = ctx.userIp4 := by
  rw [Service.vip, ← h.address]
  exact word32_bytes ctx.userIp4

/-- **Writer and reader agree on keys.** -/
theorem Dials.frontendKey (h : Dials ctx svc port) (hproto : port.protocol.Admitted) :
    ctx.frontendKey = svc.frontendKey port := by
  have hport : ctx.userPort.toUInt16 = littleEndianPort port.port := by
    rw [h.port, littleEndianPort_eq_htons]
    simp
  have hnumber : ctx.protocol.toUInt8 = parseProto port.protocol := by
    rw [h.protocol]
    cases hp : port.protocol with
    | other name => rw [hp] at hproto; exact hproto.elim
    | _ => rfl
  rw [BpfSockAddr.frontendKey, Service.frontendKey, service4Key, h.vip, hport, hnumber]

/-- Every port of a service with a four-byte VIP can be dialled. -/
theorem exists_dials (hvip : svc.ipAddress.length = 4) (port : Ports) :
    ∃ ctx, Dials ctx svc port := by
  obtain ⟨b₀, b₁, b₂, b₃, hip⟩ := List.length_eq_four.mp hvip
  refine ⟨⟨word32 b₀ b₁ b₂ b₃, (htons port.port).toUInt32, sockStream, ipProto port.protocol⟩,
    Or.inl rfl, ?_, rfl, rfl⟩
  rw [hip]
  exact bytes32_word32 b₀ b₁ b₂ b₃

/-! ### Publishing -/

variable {s s' : ServiceManager} {env : Env} {order : List Ports}

/-- `AppendService` publishes when all its map operations succeed. -/
theorem appendService_publishes (hm : s.maps.NonNil) (hports : svc.ports.isSome)
    (haddr : svc.Addressable)
    (hok : ∀ ev ∈ (s.invoke env (.appendService svc)).2.journal, ev.err = none) :
    Publishes s svc (env.appendOrder.visit svc.portList)
      (s.invoke env (.appendService svc)).2.mgr := by
  have hsnd : (s.invoke env (.appendService svc)).2 = ((appendService env svc).run ⟨s, []⟩).2 :=
    Go.run_discard_snd _ _
  rw [hsnd] at hok ⊢
  rcases @appendService_cases ⟨s, []⟩ env hm svc with ⟨set, st, _, _, _, hrun⟩ | ⟨p, hbad, _⟩ |
    ⟨set, e, st, _, _, hx, hrun⟩
  · exact @appendService_ret env ⟨s, []⟩ _ svc hm _ (hrun.trans (by rw [hrun]))
  · -- it has a port set and an address, so it does not panic before the first operation
    rcases hbad with hnone | hnot
    · rw [hnone] at hports
      exact absurd hports (by simp)
    · exact absurd haddr hnot
  · -- the operation that failed is in the journal
    have hfail := (exists_failed_iff bpfMachine env.fault (⟨s, []⟩ : World).log _).mpr
      (Or.inr (by rw [hx]; simp))
    rw [hx] at hfail
    rw [hrun] at hok
    obtain ⟨ev, hev, herr⟩ := hfail
    exact absurd (hok ev hev) herr

/-- **What a published service is translated to.** A socket that dials a port of the
service goes to endpoint `r mod n`, at the target port of the port visited last. -/
theorem connect4_of_publishes {init : List Ports} {last : Ports}
    (h : Publishes s svc (init ++ [last]) s') (hm : s.maps.NonNil)
    (hn₁ : 1 ≤ svc.endpoints.length) (hn₂ : svc.endpoints.length ≤ 65535)
    (hport : port ∈ svc.portList) (hproto : port.protocol.Admitted)
    (hdial : Dials ctx svc port) (r : UInt32) :
    ∃ eip, svc.endpoints[r.toNat % svc.endpoints.length]? = some eip ∧
      s'.maps.connect4 r ctx = (.translated,
        { ctx with userIp4 := eip, userPort := (htons last.targetPort).toUInt32 }) := by
  have hlt : r.toNat % svc.endpoints.length < svc.endpoints.length := Nat.mod_lt _ hn₁
  have heps : (s.allocated svc).endpoints = svc.endpoints := allocated_endpoints ⟨s, []⟩ svc
  refine ⟨svc.endpoints[r.toNat % svc.endpoints.length], List.getElem?_eq_getElem hlt, ?_⟩
  -- the frontend
  have hkey : (s.allocated svc).frontendKey port = ctx.frontendKey :=
    (allocated_frontendKey ⟨s, []⟩ svc port).trans (hdial.frontendKey hproto).symm
  have hfront : s'.maps.frontend ctx.frontendKey = some (s.allocated svc).frontendValue := by
    rw [h.maps, fold_frontend_appendScript _ _ hm, if_pos]
    exact List.mem_map.mpr ⟨port, h.perm.mem_iff.mpr hport, hkey⟩
  -- the backend
  have hback := fold_backend_appendScript (s.allocated svc) init last (by rw [heps]; omega) hm
    (r.toNat % svc.endpoints.length) (by rw [heps]; exact hlt)
  rw [← h.maps] at hback
  rw [connect4_eq _ _ _ hdial.type, hfront]
  have hcount := count_ne_zero hn₁ hn₂
  simp only [Service.frontendValue, heps, if_neg hcount, backendIndex_toNat r hcount,
    toNat_count hn₂, hback, backendValue, littleEndianPort_eq_htons]

/-! ### Balancing -/

theorem draws_eq {n i : ℕ} (h₁ : 1 ≤ n) (h₂ : n ≤ 65535) (hi : i < n) :
    draws n i = 2 ^ 32 / n + if i < 2 ^ 32 % n then 1 else 0 := by
  have hfilter : ((Finset.range (2 ^ 32)).filter fun r =>
      (backendIndex (UInt32.ofNat r) (UInt16.ofNat n)).toNat = i + 1) =
      (Finset.range (2 ^ 32)).filter fun r => r ≡ i [MOD n] := by
    refine Finset.filter_congr fun r hr => ?_
    rw [backendIndex_toNat _ (count_ne_zero h₁ h₂), toNat_count h₂, UInt32.toNat_ofNat',
      Nat.mod_eq_of_lt (Finset.mem_range.mp hr), Nat.ModEq, Nat.mod_eq_of_lt hi]
    exact Nat.succ_inj
  have hcount := Nat.count_modEq_card (b := 2 ^ 32) h₁ i
  rw [Nat.mod_eq_of_lt hi, Nat.count_eq_card_filter_range] at hcount
  rw [draws, hfilter, hcount]

/-- **Writer and reader agree, and the choice is even.** For every state of the
manager and of the maps, every service with a four-byte VIP and 1 to 65535 endpoints
and every visiting order: after `AppendService`, all of whose map operations
succeeded, a socket that dials a port of the service is redirected to endpoint
`r mod n` and to the target port of one of the ports; and each position is selected
by `2^32 / n` or `2^32 / n + 1` of the random values. -/
theorem connect4_balances (hm : s.maps.NonNil) (hvip : svc.ipAddress.length = 4)
    (hne : svc.portList ≠ []) (hproto : ∀ p ∈ svc.portList, p.protocol.Admitted)
    (hn₁ : 1 ≤ svc.endpoints.length) (hn₂ : svc.endpoints.length ≤ 65535)
    (hok : ∀ ev ∈ (s.invoke env (.appendService svc)).2.journal, ev.err = none) :
    (∀ p ∈ svc.portList, ∀ ctx, Dials ctx svc p → ∀ r,
      ((s.invoke env (.appendService svc)).2.mgr.maps.connect4 r ctx).1 = .translated ∧
      svc.endpoints[r.toNat % svc.endpoints.length]? =
        some ((s.invoke env (.appendService svc)).2.mgr.maps.connect4 r ctx).2.userIp4 ∧
      ∃ q ∈ svc.portList,
        ((s.invoke env (.appendService svc)).2.mgr.maps.connect4 r ctx).2.userPort =
          (htons q.targetPort).toUInt32) ∧
    ∀ i < svc.endpoints.length,
      draws svc.endpoints.length i = 2 ^ 32 / svc.endpoints.length ∨
      draws svc.endpoints.length i = 2 ^ 32 / svc.endpoints.length + 1 := by
  have hpub := appendService_publishes hm (isSome_ports_of_ne_nil hne)
    (addressable_of_length hvip) hok
  obtain ⟨init, last, horder⟩ := hpub.exists_last hne
  constructor
  · -- the target port found is the one of the port visited last, whichever that is
    intro p hp ctx hdial r
    rw [horder] at hpub
    obtain ⟨eip, heip, hconn⟩ := connect4_of_publishes hpub hm hn₁ hn₂ hp (hproto p hp) hdial r
    rw [hconn]
    exact ⟨rfl, heip, last, hpub.perm.mem_iff.mp (by simp), rfl⟩
  · intro i hi
    rw [draws_eq hn₁ hn₂ hi]
    split
    · exact Or.inr rfl
    · exact Or.inl rfl

/-- A service whose two ports have target ports of their own. -/
def shopService : Service :=
  ⟨"shop", "default", 0, [10, 96, 0, 20],
    some ((Typed.new.add ⟨.tcp, 80, 8080⟩).add ⟨.tcp, 443, 8443⟩), [0x0100f40a, 0x0200f40a]⟩

/-- A socket that connects to the shop's port 443. -/
def shopSocket : BpfSockAddr := ⟨0x1400600a, (htons 443).toUInt32, sockStream, 6⟩

theorem dials_shopSocket : Dials shopSocket shopService ⟨.tcp, 443, 8443⟩ :=
  ⟨Or.inl rfl, by decide, rfl, rfl⟩

/-- Each of the shop's two endpoints is drawn by half of the random values, or one
more. -/
theorem connect4_balances_shop : draws 2 0 = 2 ^ 31 ∨ draws 2 0 = 2 ^ 31 + 1 :=
  (@connect4_balances shopService (newServiceManager Maps.empty) .calm Maps.nonNil_empty
    (by decide) (by decide) (by decide) (by decide) (by decide) (by decide)).2 0 (by decide)

/-! ### Target ports -/

/-- **Exactly when every port keeps its own target port.** For every state, service and
visiting order as above: a socket that dials a port is always redirected to the target
port of that port if and only if all ports of the service have the same target port. -/
theorem connect4_targetPort_iff (hm : s.maps.NonNil) (hports : svc.ports.isSome)
    (hvip : svc.ipAddress.length = 4) (hproto : ∀ p ∈ svc.portList, p.protocol.Admitted)
    (hn₁ : 1 ≤ svc.endpoints.length) (hn₂ : svc.endpoints.length ≤ 65535)
    (hok : ∀ ev ∈ (s.invoke env (.appendService svc)).2.journal, ev.err = none) :
    (∀ p ∈ svc.portList, ∀ ctx, Dials ctx svc p → ∀ r,
      ((s.invoke env (.appendService svc)).2.mgr.maps.connect4 r ctx).2.userPort =
        (htons p.targetPort).toUInt32) ↔
    ∀ p ∈ svc.portList, ∀ q ∈ svc.portList, p.targetPort = q.targetPort := by
  by_cases hne : svc.portList = []
  · simp [hne]
  have hpub := appendService_publishes hm hports (addressable_of_length hvip) hok
  obtain ⟨init, last, horder⟩ := hpub.exists_last hne
  rw [horder] at hpub
  have hlast : last ∈ svc.portList := hpub.perm.mem_iff.mp (by simp)
  -- whatever port is dialled, the answer is the target port of the last one
  have hanswer : ∀ p ∈ svc.portList, ∀ ctx, Dials ctx svc p → ∀ r,
      ((s.invoke env (.appendService svc)).2.mgr.maps.connect4 r ctx).2.userPort =
        (htons last.targetPort).toUInt32 := by
    intro p hp ctx hdial r
    obtain ⟨eip, -, hconn⟩ := connect4_of_publishes hpub hm hn₁ hn₂ hp (hproto p hp) hdial r
    rw [hconn]
  constructor
  · intro hown
    have hsame : ∀ p ∈ svc.portList, p.targetPort = last.targetPort := by
      intro p hp
      obtain ⟨ctx, hdial⟩ := exists_dials hvip p
      have heq := (hown p hp ctx hdial 0).symm.trans (hanswer p hp ctx hdial 0)
      exact htons_injective (UInt16.toUInt32_inj.mp heq)
    exact fun p hp q hq => (hsame p hp).trans (hsame q hq).symm
  · intro hsame p hp ctx hdial r
    rw [hanswer p hp ctx hdial r, hsame p hp last hlast]

/-- The shop with one target port for both of its ports. -/
def twinService : Service :=
  { shopService with ports := some ((Typed.new.add ⟨.tcp, 80, 8080⟩).add ⟨.tcp, 443, 8080⟩) }

theorem connect4_targetPort_twin :
    (((newServiceManager Maps.empty).invoke .calm (.appendService twinService)).2.mgr.maps.connect4
      7 shopSocket).2.userPort = (htons 8080).toUInt32 :=
  (@connect4_targetPort_iff twinService (newServiceManager Maps.empty) .calm Maps.nonNil_empty rfl
    (by decide) (by decide) (by decide) (by decide) (by decide)).mpr (by decide)
    ⟨.tcp, 443, 8080⟩ (by decide) shopSocket ⟨Or.inl rfl, by decide, rfl, rfl⟩ 7

/-- The shop's port 443 is redirected to the target port of its port 80, which is
visited last. -/
theorem connect4_mixes_targetPorts :
    ∃ svc env p ctx r, svc.ipAddress.length = 4 ∧
      (svc.portList.map fun p => (p.port, p.protocol)).Nodup ∧
      (∀ p ∈ svc.portList, p.protocol.Admitted) ∧
      1 ≤ svc.endpoints.length ∧ svc.endpoints.length ≤ 65535 ∧
      (∀ ev ∈ ((newServiceManager Maps.empty).invoke env (.appendService svc)).2.journal,
        ev.err = none) ∧
      p ∈ svc.portList ∧ Dials ctx svc p ∧
      (((newServiceManager Maps.empty).invoke env (.appendService svc)).2.mgr.maps.connect4
        r ctx).2.userPort ≠ (htons p.targetPort).toUInt32 :=
  ⟨shopService, .calm, ⟨.tcp, 443, 8443⟩, shopSocket, 0, by decide, by decide, by decide,
    by decide, by decide, by decide, by decide, dials_shopSocket, by decide⟩

end EProxy

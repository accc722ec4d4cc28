import EProxy.Ebpf.Connect4
import EProxy.Manager.Issued
import EProxy.Manager.Removal
import EProxy.Manager.Touches

/-!
# Crashes and restarts

The two maps are pinned in the BPF file system, so they outlive the process. A process may
be gone at any moment, in the middle of a call as well; the next one starts with an empty
manager over the maps as the last one has left them, and the data path reads them all the
while. `nodeSystem` is a node over the lives of many processes: a call runs to its end,
returned or recovered from a panic, or a crash cuts it off after any of its map operations.

`connect4` looks into the two maps one after the other, and anything may happen in between,
so its two lookups are at two moments of a run (`Maps.torn`). Two results hold at every
moment:

* a connection is redirected only to where some process was told to redirect it
  (`connect4_redirects_to_offered`);
* a frontend that was there at the start, and that no process is told about, stays there for
  good (`stale_frontend_stays`): there is no reconciliation with the maps at a start.
-/

namespace EProxy

open Framework Machine

/-! ### Nodes -/

/-- The maps as a reader, or a crash, may find them during a call. -/
def ServiceManager.visible (s : ServiceManager) (i : Invocation) : List Maps :=
  s.maps :: (s.invoke i.env i.call).2.journal.map bpfMachine.after

/-- The steps of a node: a call runs to its end, or the process is gone during a call and a
new one is started. -/
inductive NodeLabel where
  | call (i : Invocation)
  | crash (i : Invocation)

/-- The call of a step. -/
def NodeLabel.invocation : NodeLabel → Invocation
  | .call i | .crash i => i

/-- A node whose first process has found the maps `pinned`. -/
def nodeSystem (pinned : Maps) : System ServiceManager NodeLabel where
  init := newServiceManager pinned
  step s l s' :=
    match l with
    | .call i => s' = (s.invoke i.env i.call).2.mgr
    -- all that is left is the maps
    | .crash i => ∃ m ∈ s.visible i, s' = newServiceManager m

/-- An object that some process of the run was given to publish. -/
def Offered (tr : List (Transition ServiceManager NodeLabel)) (obj : Service) : Prop :=
  ∃ t ∈ tr, Offers t.pre t.label.invocation.call obj

/-- The maps at some moment of a run that ends in `s`. -/
def Seen (tr : List (Transition ServiceManager NodeLabel)) (s : ServiceManager) (m : Maps) : Prop :=
  m = s.maps ∨ ∃ t ∈ tr, m ∈ t.pre.visible t.label.invocation

/-! ### The invariant rule -/

/-- The property `I` of maps is kept by all that a process may do: it deletes what belongs to
services of the kind `K`, the live ones, and writes what belongs to objects of the kind `O`,
those it is given. -/
structure Keeps (I : Maps → Prop) (K O : Service → Prop) : Prop where
  stored : ∀ {obj} id, O obj → K { obj with serviceId := id }
  deleteService : ∀ {svc p m}, K svc → p ∈ svc.portList → m.NonNil → I m →
    I ((MapOp.deleteService (svc.frontendKey p)).apply m)
  deleteEndpoint : ∀ {svc i m}, K svc → i < svc.endpoints.length → m.NonNil → I m →
    I ((MapOp.deleteEndpoint ⟨slot svc.serviceId i⟩).apply m)
  updateService : ∀ {obj id p m}, O obj → p ∈ obj.portList → m.NonNil → I m →
    I ((MapOp.updateService (obj.frontendKey p) ⟨id, UInt16.ofNat obj.endpoints.length⟩).apply m)
  updateEndpoint : ∀ {obj id p eip i m}, O obj → p ∈ obj.portList →
    (eip, i) ∈ obj.endpoints.zipIdx 1 → m.NonNil → I m →
    I ((MapOp.updateEndpoint ⟨slot id i⟩ (backendValue eip p)).apply m)

/-- What is kept, of a node. -/
structure NodeInv (I : Maps → Prop) (K : Service → Prop) (s : ServiceManager) : Prop where
  nonNil : s.maps.NonNil
  maps : I s.maps
  live : ∀ k svc, s.services k = some svc → K svc

section Rule

variable {I : Maps → Prop} {K O : Service → Prop} {pinned : Maps} {s s' : ServiceManager}

/-- Every operation of a call keeps the property. -/
theorem Keeps.issues (h : Keeps I K O) (hs : NodeInv I K s) {call : Call}
    (hoffer : ∀ obj, Offers s call obj → O obj) {op : MapOp} (hop : Issues s call op) {m : Maps}
    (hm : m.NonNil) (hI : I m) : I (op.apply m) := by
  cases hop with
  | deleteService hlive hp => exact h.deleteService (hs.live _ _ hlive) hp hm hI
  | deleteEndpoint hlive hi => exact h.deleteEndpoint (hs.live _ _ hlive) hi hm hI
  | updateService id ho hp => exact h.updateService (hoffer _ ho) hp hm hI
  | updateEndpoint id ho hp he => exact h.updateEndpoint (hoffer _ ho) hp he hm hI

/-- So it holds of all maps in reach. -/
theorem Keeps.leads (h : Keeps I K O) (hs : NodeInv I K s) {call : Call}
    (hoffer : ∀ obj, Offers s call obj → O obj) {m : Maps}
    (hlead : bpfMachine.Leads (Issues s call) s.maps m) : m.NonNil ∧ I m := by
  refine hlead.invariant (I := fun m : Maps => m.NonNil ∧ I m) ⟨hs.nonNil, hs.maps⟩ ?_
  intro op m hop hm
  exact ⟨apply_nonNil hm.1 op, h.issues hs hoffer hop hm.1 hm.2⟩

/-- At every moment of a call. -/
theorem Keeps.visible (h : Keeps I K O) (hs : NodeInv I K s) {i : Invocation}
    (hoffer : ∀ obj, Offers s i.call obj → O obj) {m : Maps} (hm : m ∈ s.visible i) :
    m.NonNil ∧ I m := by
  rcases List.mem_cons.mp hm with rfl | hm
  · exact ⟨hs.nonNil, hs.maps⟩
  · obtain ⟨ev, hev, rfl⟩ := List.mem_map.mp hm
    have hpoint := (invoke_conducts hs.nonNil i.env i.call).points ev hev
    exact h.leads hs hoffer (hpoint.resolve_left List.not_mem_nil)

/-- **The step.** -/
theorem Keeps.step (h : Keeps I K O) (hs : NodeInv I K s) {l : NodeLabel}
    (hoffer : ∀ obj, Offers s l.invocation.call obj → O obj)
    (hstep : (nodeSystem pinned).step s l s') : NodeInv I K s' := by
  cases l with
  | call i =>
    obtain rfl : s' = (s.invoke i.env i.call).2.mgr := hstep
    have hcond := invoke_conducts hs.nonNil i.env i.call
    obtain ⟨hm, hI⟩ := h.leads hs hoffer hcond.maps
    refine ⟨hm, hI, fun k svc hk => ?_⟩
    rcases hcond.stored k svc hk with hold | ⟨obj, id, ho, rfl⟩
    · exact hs.live k svc hold
    · exact h.stored id (hoffer obj ho)
  | crash i =>
    obtain ⟨m, hm, rfl⟩ := hstep
    obtain ⟨hnn, hI⟩ := h.visible hs hoffer hm
    exact ⟨hnn, hI, fun k svc hk => absurd hk (by simp [newServiceManager])⟩

/-- **The run.** A property of the maps that is kept holds at every moment of a run. -/
theorem Keeps.seen (h : Keeps I K O) {tr : List (Transition ServiceManager NodeLabel)}
    (hrun : Run (nodeSystem pinned) (newServiceManager pinned) tr s) (hm : pinned.NonNil)
    (h0 : I pinned) (hoffer : ∀ obj, Offered tr obj → O obj) {m : Maps} (hseen : Seen tr s m) :
    I m := by
  have hoffers : ∀ t ∈ tr, ∀ obj, Offers t.pre t.label.invocation.call obj → O obj :=
    fun t ht obj ho => hoffer obj ⟨t, ht, ho⟩
  have hinit : NodeInv I K (newServiceManager pinned) :=
    ⟨hm, h0, fun k svc hk => absurd hk (by simp [newServiceManager])⟩
  obtain ⟨hend, hall⟩ := hrun.invariant_of (I := NodeInv I K)
    (C := fun s l _ => ∀ obj, Offers s l.invocation.call obj → O obj) hinit
    (fun _ _ _ hI hC hst => h.step hI hC hst) hoffers
  rcases hseen with rfl | ⟨t, ht, hvis⟩
  · exact hend.maps
  · exact (h.visible (hall t ht).1 (hoffers t ht) hvis).2

end Rule

/-! ### Frontends nobody knows -/

section Stale

variable {pinned : Maps} {s : ServiceManager} {tr : List (Transition ServiceManager NodeLabel)}
  {f : Service4Key}

/-- Services without the frontend `f` leave it alone. -/
theorem keeps_frontend (pinned : Maps) (f : Service4Key) :
    Keeps (fun m => m.frontend f = pinned.frontend f) (fun svc => f ∉ svc.frontends)
      (fun obj => f ∉ obj.frontends) where
  stored _ h := h
  deleteService {svc p m} h hp _ hI := by
    rw [frontend_deleteService, if_neg]
    · exact hI
    · rintro rfl
      exact h (List.mem_map_of_mem hp)
  deleteEndpoint _ _ _ hI := hI
  updateService {obj id p m} h hp hm hI := by
    rw [frontend_updateService _ _ _ hm, if_neg]
    · exact hI
    · rintro rfl
      exact h (List.mem_map_of_mem hp)
  updateEndpoint _ _ _ _ hI := hI

/-- **What nobody knows about stays.** Over every run of a node, through any number of calls
of all five methods, of panics and of crashes at any point of a call: the entry under a
frontend of no object that any process was given to publish is the one the first process has
found. -/
theorem stale_frontend_stays (hm : pinned.NonNil)
    (hrun : Run (nodeSystem pinned) (newServiceManager pinned) tr s)
    (hf : ∀ obj, Offered tr obj → f ∉ obj.frontends) :
    ∀ m, Seen tr s m → m.frontend f = pinned.frontend f :=
  fun _ hseen => (keeps_frontend pinned f).seen hrun hm rfl hf hseen

end Stale

/-- The frontend of a service that was deleted while no process was running. -/
def staleKey : Service4Key := ⟨0x6300600a, 0x5000, 6, 0⟩

/-- The maps an earlier process has left: the web service with two endpoints, and another
service. -/
def leftovers : Maps :=
  ⟨some ((Table.empty.set (webService.frontendKey ⟨.tcp, 80, 8080⟩) ⟨1, 2⟩).set staleKey ⟨1, 7⟩),
    some Table.empty⟩

/-- The call that publishes the web service. -/
def webInvocation : Invocation := ⟨.updateService webService, .calm⟩

/-- What a process leaves that is gone after it has written one backend of the web service. -/
def afterCrash : ServiceManager :=
  newServiceManager (bpfMachine.fold leftovers
    (appendScript { webService with serviceId := 1 } webService.portList))

/-- The run through the crash. -/
def crashing : List (Transition ServiceManager NodeLabel) :=
  [] ++ [⟨newServiceManager leftovers, .crash webInvocation, afterCrash⟩]

theorem run_crashing :
    Run (nodeSystem leftovers) (newServiceManager leftovers) crashing afterCrash :=
  .snoc (.nil _) ⟨_, List.mem_cons_of_mem _ (List.mem_cons_of_mem _ List.mem_cons_self), rfl⟩

/-- The only object of the run is the web service. -/
theorem offered_crashing {obj : Service} (h : Offered crashing obj) : obj = webService := by
  obtain ⟨t, ht, hoffer⟩ := h
  obtain rfl := List.mem_singleton.mp ht
  cases hoffer
  rfl

/-- The other service is still there after the crash. -/
theorem stale_frontend_crashing : afterCrash.maps.frontend staleKey = some ⟨1, 7⟩ := by
  have hf : ∀ obj, Offered crashing obj → staleKey ∉ obj.frontends := by
    intro obj ho
    rw [offered_crashing ho]
    decide
  rw [stale_frontend_stays ⟨rfl, rfl⟩ run_crashing hf _ (Or.inl rfl)]
  decide

/-! ### Where connections go -/

/-- The maps as a connection reads them that looks up the service at one moment and the
backend at another. -/
def Maps.torn (m₁ m₂ : Maps) : Maps := ⟨m₁.serviceMap, m₂.endpointsMap⟩

/-- Every entry was there at the start or belongs to an object of the kind `O`. -/
structure Traced (pinned : Maps) (O : Service → Prop) (m : Maps) : Prop where
  frontend : ∀ f v, m.frontend f = some v → pinned.frontend f = some v ∨
    ∃ obj, O obj ∧ f ∈ obj.frontends ∧ v.count = UInt16.ofNat obj.endpoints.length
  backend : ∀ e b, m.backend e = some b → pinned.backend e = some b ∨
    ∃ obj, O obj ∧ ∃ eip ∈ obj.endpoints, ∃ p ∈ obj.portList, b = backendValue eip p

section Traced

variable {pinned m : Maps} {O : Service → Prop}

/-- Deletions leave fewer entries. -/
theorem Traced.of_sub {m' : Maps} (h : Traced pinned O m)
    (hfront : ∀ f v, m'.frontend f = some v → m.frontend f = some v)
    (hback : ∀ e b, m'.backend e = some b → m.backend e = some b) : Traced pinned O m' :=
  ⟨fun f v hv => h.frontend f v (hfront f v hv), fun e b hb => h.backend e b (hback e b hb)⟩

theorem keeps_traced (pinned : Maps) (O : Service → Prop) :
    Keeps (Traced pinned O) (fun _ => True) O where
  stored _ _ := trivial
  deleteService {svc p m} _ _ _ hI := by
    refine hI.of_sub (fun f v hv => ?_) fun _ _ hb => hb
    rw [frontend_deleteService] at hv
    split at hv
    · exact absurd hv (by simp)
    · exact hv
  deleteEndpoint {svc i m} _ _ _ hI := by
    refine hI.of_sub (fun _ _ hv => hv) fun e b hb => ?_
    rw [backend_deleteEndpoint] at hb
    split at hb
    · exact absurd hb (by simp)
    · exact hb
  updateService {obj id p m} ho hp hm hI := by
    refine ⟨fun f v hv => ?_, hI.backend⟩
    rw [frontend_updateService _ _ _ hm] at hv
    split at hv
    · next hf =>
      -- the entry just written
      rw [← Option.some.inj hv, hf]
      exact Or.inr ⟨obj, ho, List.mem_map_of_mem hp, rfl⟩
    · exact hI.frontend f v hv
  updateEndpoint {obj id p eip i m} ho hp he hm hI := by
    refine ⟨hI.frontend, fun e b hb => ?_⟩
    rw [backend_updateEndpoint _ _ _ hm] at hb
    split at hb
    · rw [← Option.some.inj hb]
      exact Or.inr ⟨obj, ho, eip, List.fst_mem_of_mem_zipIdx he, p, hp, rfl⟩
    · exact hI.backend e b hb

theorem traced_pinned (pinned : Maps) (O : Service → Prop) : Traced pinned O pinned :=
  ⟨fun _ _ => Or.inl, fun _ _ => Or.inl⟩

end Traced

/-- A connection is redirected, or left alone. -/
theorem connect4_cases (m : Maps) (r : UInt32) (ctx : BpfSockAddr) :
    (m.connect4 r ctx).2 = ctx ∧ (m.connect4 r ctx).1 ≠ .translated ∨
    ∃ v e b, m.frontend ctx.frontendKey = some v ∧ m.backend e = some b ∧
      m.connect4 r ctx = (.translated,
        { ctx with userIp4 := b.endpointIP, userPort := b.endpointPort.toUInt32 }) := by
  by_cases htype : ctx.type = sockStream ∨ ctx.type = sockDgram
  · rw [connect4_eq m r ctx htype]
    cases hfront : m.frontend ctx.frontendKey with
    | none => exact Or.inl ⟨rfl, by simp⟩
    | some v =>
      by_cases hcount : v.count = 0
      · exact Or.inl (by simp [hcount])
      · simp only [hcount, if_false]
        cases hback : m.backend ⟨slot v.serviceID (backendIndex r v.count).toNat⟩ with
        | none => exact Or.inl ⟨rfl, by simp⟩
        | some b => exact Or.inr ⟨v, _, b, rfl, hback, rfl⟩
  · rw [Maps.connect4, connect4, if_pos (by tauto)]
    exact Or.inl ⟨rfl, by simp⟩

/-- The socket is sent to an endpoint of the object, at a target port of it. -/
def BpfSockAddr.Reaches (ctx : BpfSockAddr) (obj : Service) : Prop :=
  ctx.userIp4 ∈ obj.endpoints ∧ ∃ p ∈ obj.portList, ctx.userPort = (htons p.targetPort).toUInt32

/-- **No connection goes where nobody has sent it.** Over every run of a node, through any
number of calls, panics and crashes at any point of a call, and for every connection whose two
lookups are at any two moments of the run: if it is redirected, it was to a frontend of an
object that some process was given to publish, or of one that was pinned at the start; it goes
to an endpoint of such an object and to a target port of it, or to a pinned backend; and only
its address and its port are changed. If it is not redirected nothing is changed. -/
theorem connect4_redirects_to_offered {pinned : Maps} {s : ServiceManager}
    {tr : List (Transition ServiceManager NodeLabel)} (hm : pinned.NonNil)
    (hrun : Run (nodeSystem pinned) (newServiceManager pinned) tr s) {m₁ m₂ : Maps}
    (h₁ : Seen tr s m₁) (h₂ : Seen tr s m₂) (r : UInt32) (ctx : BpfSockAddr) :
    if ((m₁.torn m₂).connect4 r ctx).1 = .translated then
      ((pinned.frontend ctx.frontendKey).isSome ∨
        ∃ obj, Offered tr obj ∧ ctx.frontendKey ∈ obj.frontends) ∧
      ((∃ e b, pinned.backend e = some b ∧ ((m₁.torn m₂).connect4 r ctx).2.userIp4 = b.endpointIP ∧
          ((m₁.torn m₂).connect4 r ctx).2.userPort = b.endpointPort.toUInt32) ∨
        ∃ obj, Offered tr obj ∧ ((m₁.torn m₂).connect4 r ctx).2.Reaches obj) ∧
      ((m₁.torn m₂).connect4 r ctx).2.type = ctx.type ∧
      ((m₁.torn m₂).connect4 r ctx).2.protocol = ctx.protocol
    else ((m₁.torn m₂).connect4 r ctx).2 = ctx := by
  have htr₁ : Traced pinned (Offered tr) m₁ :=
    (keeps_traced pinned (Offered tr)).seen hrun hm (traced_pinned _ _) (fun _ => id) h₁
  have htr₂ : Traced pinned (Offered tr) m₂ :=
    (keeps_traced pinned (Offered tr)).seen hrun hm (traced_pinned _ _) (fun _ => id) h₂
  rcases connect4_cases (m₁.torn m₂) r ctx with ⟨hsame, hnot⟩ | ⟨v, e, b, hfront, hback, hout⟩
  · rw [if_neg hnot]
    exact hsame
  · rw [hout, if_pos rfl]
    -- the frontend is one of the first moment, the backend one of the second
    have hfront' : m₁.frontend ctx.frontendKey = some v := hfront
    have hback' : m₂.backend e = some b := hback
    refine ⟨?_, ?_, rfl, rfl⟩
    · rcases htr₁.frontend _ _ hfront' with hold | ⟨obj, ho, hf, -⟩
      · exact Or.inl (by rw [hold]; rfl)
      · exact Or.inr ⟨obj, ho, hf⟩
    · rcases htr₂.backend _ _ hback' with hold | ⟨obj, ho, eip, heip, p, hp, rfl⟩
      · exact Or.inl ⟨e, b, hold, rfl, rfl⟩
      · refine Or.inr ⟨obj, ho, heip, p, hp, ?_⟩
        rw [backendValue, littleEndianPort_eq_htons]

/-- A connection to the web service after the crash: the frontend is one of the pinned ones,
or the one written before the crash, and the backend has been written before it too. -/
theorem connect4_redirects_crashing :
    ∃ obj, Offered crashing obj ∧ ((leftovers.torn afterCrash.maps).connect4 2
      ⟨0x0a00600a, (htons 80).toUInt32, sockStream, 6⟩).2.Reaches obj := by
  have hout := connect4_redirects_to_offered ⟨rfl, rfl⟩ run_crashing
    (Or.inr ⟨_, List.mem_singleton.mpr rfl, List.mem_cons_self⟩) (Or.inl rfl) 2
    ⟨0x0a00600a, (htons 80).toUInt32, sockStream, 6⟩
  rw [if_pos (by decide)] at hout
  rcases hout.2.1 with ⟨e, b, hpinned, -⟩ | hobj
  · exact absurd hpinned (by simp [leftovers, Maps.backend])
  · exact hobj

end EProxy

import EProxy.Manager.Script

/-!
# The two extractors

`NewService` and `OnUpdateEndpointSlice` each walk the endpoints of a slice and collect
encoded addresses, in two loops that were written separately. The inner loops differ
in the test an encoding has to pass, so both are `collectAddresses` at a test; the
outer loops differ in what they do with a nil `Ready`, one dereferences it and one
skips the endpoint. For each of them one equivalence says when it returns and with what
(`newServiceEndpoints_eq_ret_iff`, `onUpdateEndpoints_eq_ret_iff`).

`NewService` is meant to keep the nonzero encodings of the ready endpoints
(`readyAddresses`) and does so whenever it returns; it panics on a nil `Ready` and on an
address of a ready endpoint that is not IPv4 (`newService_extracts_iff`). The other
extractor keeps the encodings that are zero, so the two agree only where there is
nothing to collect (`extractors_agree_iff`).
-/

namespace EProxy

open Framework

/-! ### What is to be collected -/

/-- Every `Ready` pointer is set and every address is IPv4. -/
structure Resolvable (slice : Api.EndpointSlice) : Prop where
  ready : ∀ endpoint ∈ slice.endpoints, endpoint.ready.isSome
  ipv4 : ∀ endpoint ∈ slice.endpoints, ∀ ip ∈ endpoint.addresses,
    (IP.encoded (parseIP ip)).isSome

/-- Every address of a ready endpoint is IPv4. -/
def ReadyIPv4 (endpoints : List Api.Endpoint) : Prop :=
  ∀ endpoint ∈ endpoints, endpoint.ready = some true → ∀ ip ∈ endpoint.addresses,
    (IP.encoded (parseIP ip)).isSome

@[simp] theorem readyIPv4_nil : ReadyIPv4 [] := by simp [ReadyIPv4]

theorem readyIPv4_cons (endpoint : Api.Endpoint) (rest : List Api.Endpoint) :
    ReadyIPv4 (endpoint :: rest) ↔ (endpoint.ready = some true → ∀ ip ∈ endpoint.addresses,
      (IP.encoded (parseIP ip)).isSome) ∧ ReadyIPv4 rest := List.forall_mem_cons

theorem Resolvable.readyIPv4 {slice : Api.EndpointSlice} (h : Resolvable slice) :
    ReadyIPv4 slice.endpoints := fun endpoint he _ => h.ipv4 endpoint he

/-- The encoding of an address, if it has one that passes a test. -/
def keptAddress (keep : UInt32 → Bool) (ip : String) : Option UInt32 :=
  (IP.encoded (parseIP ip)).filter keep

/-- What a ready endpoint adds, and one that is not. -/
def keptAddresses (keep : UInt32 → Bool) (endpoint : Api.Endpoint) : List UInt32 :=
  if endpoint.ready = some true then endpoint.addresses.filterMap (keptAddress keep) else []

/-- The encodings of the addresses of the ready endpoints that pass a test. -/
def collected (keep : UInt32 → Bool) (endpoints : List Api.Endpoint) : List UInt32 :=
  endpoints.flatMap (keptAddresses keep)

@[simp] theorem collected_nil (keep : UInt32 → Bool) : collected keep [] = [] := rfl

@[simp] theorem collected_cons (keep : UInt32 → Bool) (endpoint : Api.Endpoint)
    (rest : List Api.Endpoint) :
    collected keep (endpoint :: rest) = keptAddresses keep endpoint ++ collected keep rest := rfl

theorem mem_collected {keep : UInt32 → Bool} {endpoints : List Api.Endpoint} {a : UInt32} :
    a ∈ collected keep endpoints ↔ keep a ∧ ∃ endpoint ∈ endpoints, endpoint.ready = some true ∧
      ∃ ip ∈ endpoint.addresses, IP.encoded (parseIP ip) = some a := by
  unfold collected keptAddresses
  rw [List.mem_flatMap]
  constructor
  · rintro ⟨endpoint, he, ha⟩
    split at ha
    · next hready =>
      obtain ⟨ip, hip, hfilter⟩ := List.mem_filterMap.mp ha
      obtain ⟨henc, hkeep⟩ := Option.filter_eq_some_iff.mp hfilter
      exact ⟨hkeep, endpoint, he, hready, ip, hip, henc⟩
    · exact absurd ha List.not_mem_nil
  · rintro ⟨hkeep, endpoint, he, hready, ip, hip, henc⟩
    refine ⟨endpoint, he, ?_⟩
    rw [if_pos hready]
    exact List.mem_filterMap.mpr ⟨ip, hip, Option.filter_eq_some_iff.mpr ⟨henc, hkeep⟩⟩

/-- The nonzero addresses of the ready endpoints of a slice. -/
def Api.EndpointSlice.readyAddresses (slice : Api.EndpointSlice) : List UInt32 :=
  collected (· ≠ 0) slice.endpoints

/-! ### The loops -/

section Loops

variable {ε : Type}

/-- The inner loop of an extractor that keeps the encodings passing a test. -/
def collectAddresses (keep : UInt32 → Bool) (eps : List UInt32) :
    List String → Outcome ε (List UInt32)
  | [] => pure eps
  | ip :: rest => do
    let ipv4 ← Outcome.ofOption .indexOutOfRange (IP.encoded (parseIP ip))
    collectAddresses keep (if keep ipv4 then eps ++ [ipv4] else eps) rest

theorem newServiceAddresses_eq_collect (ips : List String) (eps : List UInt32) :
    (newServiceAddresses eps ips : Outcome ε _) = collectAddresses (· ≠ 0) eps ips := by
  induction ips generalizing eps with
  | nil => rfl
  | cons ip rest ih => simp only [newServiceAddresses, collectAddresses, ih, decide_eq_true_eq]

theorem onUpdateAddresses_eq_collect (ips : List String) (eps : List UInt32) :
    onUpdateAddresses eps ips = collectAddresses (· = 0) eps ips := by
  induction ips generalizing eps with
  | nil => rfl
  | cons ip rest ih => simp only [onUpdateAddresses, collectAddresses, ih, decide_eq_true_eq]

/-- The inner loop and what follows it: it returns when every address is IPv4. -/
theorem collectAddresses_bind_eq_ret_iff (keep : UInt32 → Bool) (ips : List String)
    (eps r : List UInt32) (next : List UInt32 → Outcome ε (List UInt32)) :
    (collectAddresses keep eps ips >>= next) = .ret r ↔
      (∀ ip ∈ ips, (IP.encoded (parseIP ip)).isSome) ∧
      next (eps ++ ips.filterMap (keptAddress keep)) = .ret r := by
  -- on the addresses still to read, for any list read so far
  induction ips generalizing eps with
  | nil => simp [collectAddresses]
  | cons ip rest ih =>
    rw [collectAddresses, List.forall_mem_cons]
    cases henc : IP.encoded (parseIP ip) with
    | none =>
      -- `Uint32` of fewer than four bytes
      exact iff_of_false (by simp [Outcome.ofOption]) (by simp)
    | some ipv4 =>
      have hcons : (if keep ipv4 then eps ++ [ipv4] else eps) ++
          rest.filterMap (keptAddress keep) = eps ++ (ip :: rest).filterMap (keptAddress keep) := by
        by_cases hkeep : keep ipv4 = true
        · have hsome : keptAddress keep ip = some ipv4 := by simp [keptAddress, henc, hkeep]
          rw [if_pos hkeep, List.filterMap_cons_some hsome, List.append_assoc,
            List.singleton_append]
        · have hnone : keptAddress keep ip = none := by simp [keptAddress, henc, hkeep]
          rw [if_neg hkeep, List.filterMap_cons_none hnone]
      rw [Outcome.ofOption, Outcome.ret_bind, ih, hcons]
      simp

/-- **The outer loop of `NewService`.** It asks every endpoint for its `Ready`, and the
ready ones for IPv4 addresses. -/
theorem newServiceEndpoints_eq_ret_iff (endpoints : List Api.Endpoint) (eps r : List UInt32) :
    (newServiceEndpoints eps endpoints : Outcome ε _) = .ret r ↔
      (∀ endpoint ∈ endpoints, endpoint.ready.isSome) ∧ ReadyIPv4 endpoints ∧
      r = eps ++ collected (· ≠ 0) endpoints := by
  induction endpoints generalizing eps with
  | nil =>
    simp only [newServiceEndpoints, Outcome.pure_eq, Outcome.ret.injEq, collected_nil,
      List.append_nil, readyIPv4_nil, true_and]
    exact ⟨fun h => ⟨by simp, h.symm⟩, fun h => h.2.symm⟩
  | cons endpoint rest ih =>
    rw [newServiceEndpoints, readyIPv4_cons, List.forall_mem_cons, collected_cons, keptAddresses]
    cases hready : endpoint.ready with
    | none =>
      -- the pointer is dereferenced unchecked
      exact iff_of_false (by simp) (by simp)
    | some b =>
      cases b with
      | false =>
        rw [ih, if_neg (by simp), List.nil_append]
        simp
      | true =>
        rw [newServiceAddresses_eq_collect, if_pos rfl, collectAddresses_bind_eq_ret_iff, ih,
          List.append_assoc]
        simp only [Option.isSome_some, true_and, true_imp_iff]
        tauto

/-- **The outer loop of `OnUpdateEndpointSlice`.** -/
theorem onUpdateEndpoints_eq_ret_iff (endpoints : List Api.Endpoint) (eps r : List UInt32) :
    onUpdateEndpoints eps endpoints = .ret r ↔
      ReadyIPv4 endpoints ∧ r = eps ++ collected (· = 0) endpoints := by
  induction endpoints generalizing eps with
  | nil =>
    simp only [onUpdateEndpoints, Outcome.pure_eq, Outcome.ret.injEq, collected_nil,
      List.append_nil, readyIPv4_nil, true_and]
    exact eq_comm
  | cons endpoint rest ih =>
    rw [onUpdateEndpoints, readyIPv4_cons, collected_cons, keptAddresses]
    -- here a nil pointer counts as not ready
    by_cases hready : endpoint.ready = some true
    · rw [if_pos hready, if_pos hready, onUpdateAddresses_eq_collect,
        collectAddresses_bind_eq_ret_iff, ih, List.append_assoc]
      simp only [hready, true_imp_iff]
      tauto
    · rw [if_neg hready, if_neg hready, Outcome.pure_eq, Outcome.ret_bind, ih, List.nil_append]
      simp [hready]

end Loops

/-! ### `NewService` -/

/-- The object the handler makes of a service and one of its slices. -/
def serviceOf (svc : Api.Service) (slice : Api.EndpointSlice) : Service where
  name := svc.name.text
  ns := svc.ns.text
  serviceId := 0
  ipAddress := to4 (parseIP svc.clusterIP)
  ports := some (newServicePorts svc.ports Typed.new)
  endpoints := slice.readyAddresses

/-- `NewService` returns the one object, or panics. -/
theorem newService_eq_ret_iff {ε : Type} (svc : Api.Service) (slice : Api.EndpointSlice)
    (bsvc : Service) :
    (newService svc slice : Outcome ε Service) = .ret bsvc ↔
      (∀ endpoint ∈ slice.endpoints, endpoint.ready.isSome) ∧ ReadyIPv4 slice.endpoints ∧
      bsvc = serviceOf svc slice := by
  constructor
  · intro h
    obtain ⟨eps, heps, rfl⟩ := newService_eq_ret h
    obtain ⟨hready, hipv4, rfl⟩ := (newServiceEndpoints_eq_ret_iff _ _ _).mp heps
    exact ⟨hready, hipv4, rfl⟩
  · rintro ⟨hready, hipv4, rfl⟩
    have heps : (newServiceEndpoints [] slice.endpoints : Outcome ε _) =
        .ret slice.readyAddresses :=
      (newServiceEndpoints_eq_ret_iff _ _ _).mpr ⟨hready, hipv4, rfl⟩
    rw [newService, heps]
    rfl

/-- **`NewService`** of a slice that can be resolved. -/
theorem newService_eq_serviceOf {ε : Type} {slice : Api.EndpointSlice} (h : Resolvable slice)
    (svc : Api.Service) :
    (newService svc slice : Outcome ε Service) = .ret (serviceOf svc slice) :=
  (newService_eq_ret_iff svc slice _).mpr ⟨h.ready, h.readyIPv4, rfl⟩

/-- **Exactly when `NewService` accepts a slice.** For every Service and every slice,
whatever `Ready` and the addresses are: it returns, with the nonzero IPv4 addresses of
the ready endpoints in order, exactly when every `Ready` is set and every address of a
ready endpoint is IPv4. -/
theorem newService_extracts_iff (svc : Api.Service) (slice : Api.EndpointSlice) :
    (∃ bsvc, (newService svc slice : Outcome MapError Service) = .ret bsvc ∧
      bsvc.endpoints = slice.readyAddresses) ↔
    ∀ endpoint ∈ slice.endpoints, endpoint.ready.isSome ∧ (endpoint.ready = some true →
      ∀ ip ∈ endpoint.addresses, (IP.encoded (parseIP ip)).isSome) := by
  constructor
  · rintro ⟨bsvc, hnew, -⟩ endpoint he
    obtain ⟨hready, hipv4, -⟩ := (newService_eq_ret_iff svc slice bsvc).mp hnew
    exact ⟨hready endpoint he, hipv4 endpoint he⟩
  · intro h
    exact ⟨serviceOf svc slice, (newService_eq_ret_iff svc slice _).mpr
      ⟨fun e he => (h e he).1, fun e he => (h e he).2, rfl⟩, rfl⟩

/-- A service of the API server. -/
def webObject : Api.Service where
  name := ⟨"web", by decide⟩
  ns := ⟨"default", by decide⟩
  clusterIP := "10.96.0.10"
  ports := [⟨"http", .tcp, 80, .int 8080⟩]

/-- A slice of the web service with one ready address. -/
def webSlice (name : Name) (ip : String) : Api.EndpointSlice where
  name := name
  ns := ⟨"default", by decide⟩
  labels := [(Api.labelServiceName, ⟨"web", by decide⟩)]
  deletionTimestamp := none
  endpoints := [⟨[ip], some true⟩]
  ports := [⟨some "http", some .tcp, some 8080⟩]

/-- A slice whose endpoint has no `Ready` yet is a panic, and so is an IPv6 slice. -/
theorem newService_panics_on_slices :
    (newService webObject { webSlice ⟨"web-a", by decide⟩ "10.244.0.1" with
      endpoints := [⟨["10.244.0.1"], none⟩] } : Outcome MapError Service) =
        .panic .nilDereference ∧
    (newService webObject (webSlice ⟨"web-6", by decide⟩ "fd00::1") : Outcome MapError Service) =
      .panic .indexOutOfRange := ⟨rfl, by decide⟩

/-! ### The lists side by side -/

/-- What `AppendService` returns has the endpoints it was given, through whatever
handles. -/
theorem appendService_ret_endpoints {env : Env} {svc r : Service} {w w' : World}
    (h : (appendService env svc).run w = (.ret r, w')) : r.endpoints = svc.endpoints := by
  rw [appendService_run_eq, publishService] at h
  cases hports : (w.allocated svc).ports with
  | none =>
    rw [hports] at h
    exact absurd (congrArg Prod.fst h) (by simp [Go.panic])
  | some set =>
    rw [hports] at h
    obtain ⟨set', w₁, -, h⟩ := Go.run_bind_eq_ret h
    obtain ⟨_, w₂, -, h⟩ := Go.run_bind_eq_ret h
    obtain rfl := Outcome.ret.inj (congrArg Prod.fst h)
    exact allocated_endpoints w svc

/-- A call of `OnUpdateEndpointSlice` that returned has stored the list it computed. -/
theorem onUpdateEndpointSlice_stores {s : ServiceManager} {env : Env} {new : Api.EndpointSlice}
    (hlabels : new.labels ≠ [])
    (h : (s.invoke env (.onUpdateEndpointSlice new)).1 = .ret ()) :
    ∃ eps held, onUpdateEndpoints [] new.endpoints = .ret eps ∧
      (s.invoke env (.onUpdateEndpointSlice new)).2.mgr.services (sliceKey new) = some held ∧
      held.endpoints = eps := by
  have hrun : (onUpdateEndpointSlice env new).run ⟨s, []⟩ =
      (.ret (), (s.invoke env (.onUpdateEndpointSlice new)).2) := Prod.ext h rfl
  obtain ⟨service, eps, err, w₁, held, w₂, -, heps, -, happ, hfinal⟩ :=
    onUpdateEndpointSlice_eq_ret hlabels hrun
  refine ⟨eps, held, heps, ?_, appendService_ret_endpoints happ⟩
  rw [← hfinal]
  exact Table.set_self _ _ _

/-- The list of `OnUpdateEndpointSlice`, computed and stored, is the list of
`NewService`. -/
def ExtractorsAgree (slice : Api.EndpointSlice) : Prop :=
  ∃ eps, (newServiceEndpoints [] slice.endpoints : Outcome MapError _) = .ret eps ∧
    onUpdateEndpoints [] slice.endpoints = .ret eps ∧
    ∀ s : ServiceManager, ∀ env, slice.labels ≠ [] →
      (s.invoke env (.onUpdateEndpointSlice slice)).1 = .ret () →
      ∃ held, (s.invoke env (.onUpdateEndpointSlice slice)).2.mgr.services (sliceKey slice) =
        some held ∧ held.endpoints = eps

/-- Keeping the zeros and keeping the others gives one list only of no address. -/
theorem collected_eq_iff {endpoints : List Api.Endpoint} (h : ReadyIPv4 endpoints) :
    collected (· = 0) endpoints = collected (· ≠ 0) endpoints ↔
      ∀ endpoint ∈ endpoints, endpoint.ready = some true → endpoint.addresses = [] := by
  constructor
  · intro heq endpoint he hready
    refine List.eq_nil_iff_forall_not_mem.mpr fun ip hip => ?_
    obtain ⟨a, ha⟩ := Option.isSome_iff_exists.mp (h endpoint he hready ip hip)
    have hmem : ∀ keep : UInt32 → Bool, keep a → a ∈ collected keep endpoints := fun keep hkeep =>
      mem_collected.mpr ⟨hkeep, endpoint, he, hready, ip, hip, ha⟩
    -- the address is in one of the lists, so in both, and is zero and is not
    by_cases hzero : a = 0
    · have hin := heq ▸ hmem (· = 0) (by simp [hzero])
      exact absurd hzero (by simpa using (mem_collected.mp hin).1)
    · have hin := heq ▸ hmem (· ≠ 0) (by simp [hzero])
      exact hzero (by simpa using (mem_collected.mp hin).1)
  · intro hempty
    -- no ready endpoint has an address, so neither list has one
    have hnil : ∀ keep, collected keep endpoints = [] := by
      intro keep
      refine List.eq_nil_iff_forall_not_mem.mpr fun a ha => ?_
      obtain ⟨-, endpoint, he, hready, ip, hip, -⟩ := mem_collected.mp ha
      rw [hempty endpoint he hready] at hip
      exact absurd hip List.not_mem_nil
    rw [hnil, hnil]

/-- **Exactly when the two extractors agree.** For every slice with every `Ready` set
and IPv4 addresses only: exactly when none of its ready endpoints has an address. -/
theorem extractors_agree_iff {slice : Api.EndpointSlice} (h : Resolvable slice) :
    ExtractorsAgree slice ↔
      ∀ endpoint ∈ slice.endpoints, endpoint.ready = some true → endpoint.addresses = [] := by
  rw [← collected_eq_iff h.readyIPv4]
  constructor
  · rintro ⟨eps, hnew, hon, -⟩
    rw [newServiceEndpoints_eq_ret_iff] at hnew
    rw [onUpdateEndpoints_eq_ret_iff] at hon
    exact hon.2.symm.trans hnew.2.2
  · intro heq
    have hon : onUpdateEndpoints [] slice.endpoints = .ret (collected (· ≠ 0) slice.endpoints) :=
      (onUpdateEndpoints_eq_ret_iff _ _ _).mpr ⟨h.readyIPv4, heq.symm⟩
    refine ⟨_, (newServiceEndpoints_eq_ret_iff _ _ _).mpr ⟨h.ready, h.readyIPv4, rfl⟩, hon,
      fun s env hlabels hret => ?_⟩
    obtain ⟨eps, held, heps, hheld, heq'⟩ := onUpdateEndpointSlice_stores hlabels hret
    exact ⟨held, hheld, heq'.trans (Outcome.ret.inj (heps.symm.trans hon))⟩

/-- They agree on a slice of the web service that is not ready. -/
theorem extractors_agree_unready : ExtractorsAgree { webSlice ⟨"web-a", by decide⟩ "10.244.0.1" with
    endpoints := [⟨["10.244.0.1"], some false⟩] } :=
  (extractors_agree_iff ⟨by decide, by decide⟩).mpr (by decide)

/-- Of one ready address `NewService` takes the address, the other extractor nothing. -/
theorem extractors_differ_on_web :
    Resolvable (webSlice ⟨"web-a", by decide⟩ "10.244.0.1") ∧
    (newServiceEndpoints [] (webSlice ⟨"web-a", by decide⟩ "10.244.0.1").endpoints :
      Outcome MapError _) = .ret [0x0100f40a] ∧
    onUpdateEndpoints [] (webSlice ⟨"web-a", by decide⟩ "10.244.0.1").endpoints = .ret [] ∧
    ¬ ExtractorsAgree (webSlice ⟨"web-a", by decide⟩ "10.244.0.1") := by
  refine ⟨⟨by decide, by decide⟩, by decide, by decide, ?_⟩
  rintro ⟨eps, hnew, hon, -⟩
  have hlists : (Outcome.ret eps : Outcome MapError _) = .ret [] := hon.symm.trans (by decide)
  rw [hlists] at hnew
  exact absurd hnew (by decide)

end EProxy

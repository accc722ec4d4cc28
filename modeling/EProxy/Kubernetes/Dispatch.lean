import EProxy.Kubernetes.Handling

/-!
# From a notification to a handler

`Enqueue` encodes an object as kind, namespace and name, and `handler` decodes the key
and calls the handler of the kind. The two live in different files. What `handler` does
with a key is a `HandlerCall`, which has the parameters of the handlers under the names
these give them (`handler_eq_call`).

Two things do not fit. `ServiceHandler` takes the name first, and is called with the
namespace first, as `EndpointHandler` is. And `Enqueue` asks `MetaNamespaceKeyFunc` for
the key, which has none for a tombstone, so that the notification is dropped; the
indexer asks the key function that knows tombstones. Only slices, and Services named
after their namespace, arrive where they should (`dispatched_iff`).
-/

namespace EProxy

open Framework

/-- A call of a handler, with the handler's own parameters. -/
inductive HandlerCall where
  | serviceHandler (name ns : String)
  | endpointHandler (ns name : String)
  deriving DecidableEq

/-- The handler a call is of. -/
def HandlerCall.computation (services : Store Api.Service) (slices : Store Api.EndpointSlice)
    (env : Env) : HandlerCall → Mgr (Option HandlerError)
  | .serviceHandler name ns => EProxy.serviceHandler name ns
  | .endpointHandler ns name => EProxy.endpointHandler services slices env ns name

/-- The call `handler` makes for a key, if any. -/
def handlerCall (key : String) : Option HandlerCall :=
  match splitSlash key with
  | [typ, a, b] =>
    if typ = serviceType then some (.serviceHandler a b)
    else if typ = endpointSliceType then some (.endpointHandler a b)
    else none
  | _ => none

/-- **`handler` is its call.** -/
theorem handler_eq_call (services : Store Api.Service) (slices : Store Api.EndpointSlice)
    (env : Env) (key : String) :
    handler services slices env key =
      ((handlerCall key).map (·.computation services slices env)).getD (pure none) := by
  rw [handler, handlerCall]
  -- a key of three parts, and one of fewer or more
  rcases splitSlash key with _ | ⟨typ, _ | ⟨a, _ | ⟨b, _ | ⟨c, rest⟩⟩⟩⟩
  · rfl
  · rfl
  · rfl
  · by_cases hsvc : typ = serviceType
    · simp only [if_pos hsvc]
      rfl
    · by_cases hslice : typ = endpointSliceType
      · simp only [if_neg hsvc, if_pos hslice]
        rfl
      · simp only [if_neg hsvc, if_neg hslice]
        rfl
  · rfl

/-- What the two informers hand to `OnAdd`, `OnUpdate` and `OnDelete`. -/
inductive Notification where
  | service (o : Api.Service)
  | endpointSlice (o : Api.EndpointSlice)
  | serviceTombstone (o : Api.Service)
  | endpointSliceTombstone (o : Api.EndpointSlice)

/-- The value that is handed over; a tombstone carries the key of its object. -/
def Notification.obj : Notification → Obj
  | .service o => .service o
  | .endpointSlice o => .endpointSlice o
  | .serviceTombstone o => .deletedFinalStateUnknown (Object.key o)
  | .endpointSliceTombstone o => .deletedFinalStateUnknown (Object.key o)

/-- The call that should be made: of the handler of the kind, with the namespace as
namespace and the name as name. -/
def Notification.call : Notification → HandlerCall
  | .service o | .serviceTombstone o => .serviceHandler o.name.text o.ns.text
  | .endpointSlice o | .endpointSliceTombstone o => .endpointHandler o.ns.text o.name.text

/-- `Enqueue` adds one key, and `handler` makes the right call for it. -/
def Dispatched (n : Notification) : Prop :=
  ∃ key, (∀ queue, enqueue queue n.obj = queue.add key) ∧ handlerCall key = some n.call

/-! ### Encoding and decoding -/

theorem handlerCall_service (o : Api.Service) :
    handlerCall (serviceType ++ "/" ++ Object.key o) =
      some (.serviceHandler o.ns.text o.name.text) := by
  rw [handlerCall, splitSlash_objectKey (by decide)]
  exact if_pos rfl

theorem handlerCall_endpointSlice (o : Api.EndpointSlice) :
    handlerCall (endpointSliceType ++ "/" ++ Object.key o) =
      some (.endpointHandler o.ns.text o.name.text) := by
  rw [handlerCall, splitSlash_objectKey (by decide)]
  exact (if_neg (by decide)).trans (if_pos rfl)

/-- From the empty queue one sees which key was added. -/
theorem key_of_enqueue {obj : Obj} {key : String}
    (h : ∀ queue, enqueue queue obj = queue.add key) : obj.queueKey = some key := by
  have hnew := congrArg Typed.items (h Typed.new)
  unfold enqueue at hnew
  cases hkey : obj.queueKey with
  | none =>
    rw [hkey] at hnew
    exact absurd hnew (by simp [Typed.new, Typed.add])
  | some key' =>
    rw [hkey] at hnew
    have hmem : key' ∈ (Typed.new.add key).items :=
      hnew ▸ (Typed.mem_add _ _ _).mpr (Or.inl rfl)
    rcases (Typed.mem_add _ _ _).mp hmem with rfl | hin
    · rfl
    · exact absurd hin List.not_mem_nil

theorem dispatched_iff_queueKey (n : Notification) :
    Dispatched n ↔ ∃ key, n.obj.queueKey = some key ∧ handlerCall key = some n.call := by
  constructor
  · rintro ⟨key, hadd, hcall⟩
    exact ⟨key, key_of_enqueue hadd, hcall⟩
  · rintro ⟨key, hkey, hcall⟩
    exact ⟨key, fun queue => by rw [enqueue, hkey], hcall⟩

/-- A Service is dispatched with its name and its namespace in each other's place. -/
theorem dispatched_service_iff (o : Api.Service) : Dispatched (.service o) ↔ o.ns = o.name := by
  have hkey : (Notification.service o).obj.queueKey =
      some (serviceType ++ "/" ++ Object.key o) := rfl
  rw [dispatched_iff_queueKey, hkey]
  constructor
  · rintro ⟨key, hkey', hcall⟩
    rw [← Option.some.inj hkey', handlerCall_service] at hcall
    have hargs := HandlerCall.serviceHandler.inj (Option.some.inj hcall)
    exact Name.ext hargs.1
  · intro hname
    refine ⟨_, rfl, ?_⟩
    rw [handlerCall_service, Notification.call, hname]

theorem dispatched_endpointSlice (o : Api.EndpointSlice) : Dispatched (.endpointSlice o) :=
  (dispatched_iff_queueKey _).mpr ⟨_, rfl, handlerCall_endpointSlice o⟩

/-- There is no key for a tombstone, so `Enqueue` drops it. -/
theorem not_dispatched_tombstone {n : Notification} {key : String}
    (hn : n.obj = .deletedFinalStateUnknown key) : ¬ Dispatched n := by
  rw [dispatched_iff_queueKey, hn]
  rintro ⟨key', hkey, -⟩
  exact absurd hkey (by simp [Obj.queueKey, Obj.metaNamespaceKeyFunc])

/-- **Exactly which notifications are dispatched.** Those of slices, and those of
Services whose name is their namespace; not one tombstone. -/
theorem dispatched_iff (n : Notification) :
    Dispatched n ↔ (∃ o, n = .endpointSlice o) ∨ ∃ o, n = .service o ∧ o.ns = o.name := by
  cases n with
  | service o =>
    rw [dispatched_service_iff]
    constructor
    · intro hname
      exact Or.inr ⟨o, rfl, hname⟩
    · rintro (⟨o', h⟩ | ⟨o', h, hname⟩)
      · exact absurd h (by simp)
      · obtain rfl := Notification.service.inj h
        exact hname
  | endpointSlice o => exact iff_of_true (dispatched_endpointSlice o) (Or.inl ⟨o, rfl⟩)
  | serviceTombstone o => exact iff_of_false (not_dispatched_tombstone rfl) (by simp)
  | endpointSliceTombstone o => exact iff_of_false (not_dispatched_tombstone rfl) (by simp)

/-- A service named as in the documentation, and a slice of it. -/
def nginxObject : Api.Service where
  name := ⟨"nginx-bpf", by decide⟩
  ns := ⟨"nginx", by decide⟩
  clusterIP := "10.96.0.20"
  ports := [⟨"", .tcp, 80, .int 80⟩]

def nginxSlice : Api.EndpointSlice where
  name := ⟨"nginx-bpf-x7", by decide⟩
  ns := ⟨"nginx", by decide⟩
  labels := [(Api.labelServiceName, ⟨"nginx-bpf", by decide⟩)]
  deletionTimestamp := none
  endpoints := []
  ports := []

/-- The handler of the Service gets its namespace as name, and the tombstone of the slice
is not enqueued. -/
theorem nginx_misdispatched :
    (Notification.service nginxObject).obj.queueKey = some "Service/nginx/nginx-bpf" ∧
      handlerCall "Service/nginx/nginx-bpf" = some (.serviceHandler "nginx" "nginx-bpf") ∧
      ¬ Dispatched (.service nginxObject) ∧
      enqueue Typed.new (Notification.endpointSliceTombstone nginxSlice).obj = Typed.new ∧
      ¬ Dispatched (.endpointSliceTombstone nginxSlice) := by
  refine ⟨by decide, by decide, ?_, rfl, not_dispatched_tombstone rfl⟩
  rw [dispatched_service_iff]
  decide

end EProxy

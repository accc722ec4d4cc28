import EProxy.Kubernetes.Api

/-!
# Objects as the informers get them

What the watch delivers are Go structs with all their fields, and both informers cut
them down before they store them: `convertToCustomService` and
`convertToCustomEndpointSlice` copy the fields the program needs and leave the others
zero. The structs here have the copied fields one by one and all others together, as
field names with texts (`rest`), so that it can be seen that these are dropped. There is
no invariant on a struct: a pointer may well point to a zero one.

`Resource` is what the informers need to know of a kind of object. Both informers are
the same code at two instances of it.
-/

namespace EProxy

/-- `metav1.TypeMeta`. -/
structure TypeMeta where
  kind : String
  apiVersion : String
  deriving DecidableEq

/-- `metav1.ObjectMeta`. -/
structure ObjectMeta where
  name : String
  ns : String
  resourceVersion : String
  deletionTimestamp : Option ℕ
  annotations : List (String × String)
  ownerReferences : List String
  labels : List (String × String)
  /-- Uid, finalizers, managed fields and the rest. -/
  rest : List (String × String)
  deriving DecidableEq

/-- `ObjectMeta{}`. -/
def ObjectMeta.zero : ObjectMeta := ⟨"", "", "", none, [], [], [], []⟩

/-- The metadata both conversions copy. -/
def ObjectMeta.custom (m : ObjectMeta) : ObjectMeta where
  name := m.name
  ns := m.ns
  resourceVersion := m.resourceVersion
  deletionTimestamp := m.deletionTimestamp
  annotations := m.annotations
  ownerReferences := m.ownerReferences
  labels := m.labels
  rest := []

/-- `cache.MetaNamespaceKeyFunc`. -/
def ObjectMeta.key (m : ObjectMeta) : String :=
  if m.ns = "" then m.name else m.ns ++ "/" ++ m.name

@[simp] theorem ObjectMeta.ns_custom (m : ObjectMeta) : m.custom.ns = m.ns := rfl

@[simp] theorem ObjectMeta.key_custom (m : ObjectMeta) : m.custom.key = m.key := rfl

/-- `v1.Service`. -/
structure V1.Service where
  typeMeta : TypeMeta
  objectMeta : ObjectMeta
  clusterIP : String
  ports : List Api.ServicePort
  type : String
  /-- The other fields of the spec, and the status. -/
  rest : List (String × String)
  deriving DecidableEq

/-- The object `convertToCustomService` makes of a Service. -/
def convertToCustomService (o : V1.Service) : V1.Service where
  typeMeta := o.typeMeta
  objectMeta := o.objectMeta.custom
  clusterIP := o.clusterIP
  ports := o.ports
  type := o.type
  rest := []

/-- `discovery.EndpointSlice`. -/
structure Discovery.EndpointSlice where
  typeMeta : TypeMeta
  objectMeta : ObjectMeta
  addressType : String
  ports : List Api.EndpointPort
  endpoints : List Api.Endpoint
  deriving DecidableEq

/-- The object `convertToCustomEndpointSlice` makes of an endpoint slice. -/
def convertToCustomEndpointSlice (o : Discovery.EndpointSlice) : Discovery.EndpointSlice where
  typeMeta := o.typeMeta
  objectMeta := o.objectMeta.custom
  addressType := o.addressType
  ports := o.ports
  endpoints := o.endpoints

/-- **A kind of object** that an informer is for. -/
class Resource (α : Type) where
  /-- The zero struct. -/
  zero : α
  objectMeta : α → ObjectMeta
  /-- The object the conversion makes. -/
  custom : α → α
  objectMeta_zero : objectMeta zero = .zero
  objectMeta_custom : ∀ o, objectMeta (custom o) = (objectMeta o).custom

instance : Resource V1.Service where
  zero := ⟨⟨"", ""⟩, .zero, "", [], "", []⟩
  objectMeta := V1.Service.objectMeta
  custom := convertToCustomService
  objectMeta_zero := rfl
  objectMeta_custom _ := rfl

instance : Resource Discovery.EndpointSlice where
  zero := ⟨⟨"", ""⟩, .zero, "", [], []⟩
  objectMeta := Discovery.EndpointSlice.objectMeta
  custom := convertToCustomEndpointSlice
  objectMeta_zero := rfl
  objectMeta_custom _ := rfl

namespace Resource

variable {α : Type} [Resource α]

/-- The namespace of an object, which is what the namespace index lists it under. -/
def ns (o : α) : String := (objectMeta o).ns

/-- The key of an object. -/
def key (o : α) : String := (objectMeta o).key

@[simp] theorem ns_zero : ns (zero : α) = "" := by
  rw [ns, objectMeta_zero]
  rfl

@[simp] theorem ns_custom (o : α) : ns (custom o) = ns o := by
  rw [ns, objectMeta_custom, ObjectMeta.ns_custom]
  rfl

@[simp] theorem key_custom (o : α) : key (custom o) = key o := by
  rw [key, objectMeta_custom, ObjectMeta.key_custom]
  rfl

end Resource

/-! ### Samples -/

/-- The metadata of an object in the default namespace. -/
def rawMeta (name : String) (labels : List (String × String)) : ObjectMeta :=
  ⟨name, "default", "1", none, [], [], labels, [("uid", "1b4e28ba")]⟩

/-- A service as the watch delivers it. -/
def rawService (name : String) : V1.Service where
  typeMeta := ⟨"Service", "v1"⟩
  objectMeta := rawMeta name []
  clusterIP := "10.96.0.10"
  ports := [⟨"http", .tcp, 80, .int 8080⟩]
  type := "ClusterIP"
  rest := [("sessionAffinity", "None")]

/-- A slice of the web service as the watch delivers it. -/
def rawSlice (name : String) : Discovery.EndpointSlice where
  typeMeta := ⟨"EndpointSlice", "discovery.k8s.io/v1"⟩
  objectMeta := rawMeta name [(Api.labelServiceName, "web")]
  addressType := "IPv4"
  ports := [⟨some "http", some .tcp, some 8080⟩]
  endpoints := [⟨["10.244.0.1"], some true⟩]

end EProxy

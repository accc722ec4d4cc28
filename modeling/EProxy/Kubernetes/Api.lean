import Mathlib.Data.List.Basic
import EProxy.Bpf.Types
import EProxy.Mountinfo.Strconv

/-!
# The API objects the control plane reads

Only the fields some modelled function reads are kept, and the port names and slice
ports that tell how Kubernetes resolved the ports of a service. Names, namespaces and
label values are texts the API server has validated; none of them contains a `/`, which
`Name` records.
-/

namespace EProxy

/-- A validated name, namespace or label value. -/
structure Name where
  text : String
  noSlash : '/' ∉ text.toList
  deriving DecidableEq

/-- The value a Go map returns for an absent label. -/
def Name.empty : Name := ⟨"", by decide⟩

theorem Name.ext {a b : Name} (h : a.text = b.text) : a = b := by
  cases a; cases b; cases h; rfl

/-- A key `namespace/name` tells the namespace and the name. -/
theorem Name.slash_inj {a b : Name} {ns name : String}
    (h : a.text ++ "/" ++ b.text = ns ++ "/" ++ name) : a.text = ns ∧ b.text = name := by
  rw [← String.toList_inj] at h
  simp only [String.toList_append] at h
  rw [show "/".toList = ['/'] from rfl, List.append_assoc, List.append_assoc,
    List.singleton_append, List.singleton_append,
    List.append_cons_inj_of_notMem a.noSlash b.noSlash] at h
  exact ⟨String.toList_inj.mp h.1, String.toList_inj.mp h.2.2⟩

namespace Api

/-- `intstr.IntOrString`. -/
inductive IntOrString where
  | int (val : ℤ)
  | str (val : String)
  deriving DecidableEq

/-- `IntOrString.IntValue`. -/
def IntOrString.intValue : IntOrString → ℤ
  | .int val => val
  | .str val => Strconv.atoi (Strconv.utf8 val)

/-- `v1.ServicePort`. -/
structure ServicePort where
  name : String
  protocol : Protocol
  port : ℤ
  targetPort : IntOrString
  deriving DecidableEq

/-- `v1.Service`. -/
structure Service where
  name : Name
  ns : Name
  clusterIP : String
  ports : List ServicePort
  /-- Services live in a namespace. -/
  namespaced : ns.text ≠ "" := by decide
  deriving DecidableEq

/-- `discovery.Endpoint`; `ready` is `Conditions.Ready`, a pointer. -/
structure Endpoint where
  addresses : List String
  ready : Option Bool
  deriving DecidableEq

/-- `discovery.EndpointPort`; its fields are pointers. -/
structure EndpointPort where
  name : Option String
  protocol : Option Protocol
  port : Option ℤ
  deriving DecidableEq

/-- `discovery.EndpointSlice`. -/
structure EndpointSlice where
  name : Name
  ns : Name
  labels : List (String × Name)
  deletionTimestamp : Option ℕ
  endpoints : List Endpoint
  ports : List EndpointPort
  /-- Endpoint slices live in a namespace. -/
  namespaced : ns.text ≠ "" := by decide
  deriving DecidableEq

/-- `LabelServiceName`. -/
def labelServiceName : String := "kubernetes.io/service-name"

/-- `endpointSlice.Labels[LabelServiceName]`. -/
def EndpointSlice.serviceName (slice : EndpointSlice) : Name :=
  (slice.labels.lookup labelServiceName).getD Name.empty

/-- The key of the service a slice is labelled with. -/
def EndpointSlice.labelKey (slice : EndpointSlice) : String :=
  slice.ns.text ++ "/" ++ slice.serviceName.text

/-- `!endpointSlice.ObjectMeta.DeletionTimestamp.IsZero()`: a nil pointer and the
zero time are zero. -/
def EndpointSlice.terminating (slice : EndpointSlice) : Bool :=
  match slice.deletionTimestamp with
  | none => false
  | some t => t != 0

end Api

end EProxy

import Treeline.Text.Lowercase

/-!
# Kinds of objects

Objects of a cluster are of kinds. A kind can be asked for by its name, by its plural or by a short
name, in any case.
-/

namespace Treeline.Cluster

/-- Kinds, and the names by which they can be asked for. -/
def kindNames : List (String × List String) :=
  [("Pod", ["po", "pod", "pods"]),
    ("Service", ["svc", "service", "services"]),
    ("ConfigMap", ["cm", "configmap", "configmaps"]),
    ("Secret", ["secret", "secrets"]),
    ("Namespace", ["ns", "namespace", "namespaces"]),
    ("Node", ["no", "node", "nodes"]),
    ("Event", ["ev", "event", "events"]),
    ("ServiceAccount", ["sa", "serviceaccount", "serviceaccounts"]),
    ("Endpoints", ["ep", "endpoints"]),
    ("StorageClass", ["sc", "storageclass", "storageclasses"]),
    ("PersistentVolume", ["pv", "persistentvolume", "persistentvolumes"]),
    ("PersistentVolumeClaim", ["pvc", "persistentvolumeclaim", "persistentvolumeclaims"]),
    ("Deployment", ["deploy", "deployment", "deployments"]),
    ("StatefulSet", ["sts", "statefulset", "statefulsets"]),
    ("DaemonSet", ["ds", "daemonset", "daemonsets"]),
    ("ReplicaSet", ["rs", "replicaset", "replicasets"]),
    ("Job", ["job", "jobs"]),
    ("CronJob", ["cj", "cronjob", "cronjobs"]),
    ("Ingress", ["ing", "ingress", "ingresses"]),
    ("NetworkPolicy", ["netpol", "networkpolicy", "networkpolicies"]),
    ("EndpointSlice", ["endpointslice", "endpointslices"]),
    ("Role", ["role", "roles"]),
    ("RoleBinding", ["rb", "rolebinding", "rolebindings"]),
    ("ClusterRole", ["cr", "clusterrole", "clusterroles"]),
    ("ClusterRoleBinding", ["crb", "clusterrolebinding", "clusterrolebindings"]),
    ("HorizontalPodAutoscaler", ["hpa", "horizontalpodautoscaler", "horizontalpodautoscalers"])]

/-- The kind that a name asks for. A name that is not known stands for itself. -/
def kindOf (name : String) : String :=
  let small := Text.lowercase name
  match kindNames.find? fun entry => entry.2.contains small with
  | some (kind, _) => kind
  | none => name

end Treeline.Cluster

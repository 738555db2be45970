import Hypergate.Identity.Types

/-!
# Identity resources on the wire (`internal/identityapi/v1`)

The messages the operator publishes and the engine decodes. Protobuf encoding
is taken as faithful, so a message is its fields.
-/

namespace Hypergate.Identity

/-- `identityv1.WorkloadKind`. -/
inductive WorkloadKindProto where
  | unspecified | pod | node
  deriving DecidableEq

/-- `identityv1.ServiceRef`. -/
structure ServiceRefProto where
  «namespace» : String
  name : String
  deriving DecidableEq

/-- `identityv1.Workload`. -/
structure WorkloadProto where
  ip : String
  kind : WorkloadKindProto
  podUid : String
  «namespace» : String
  pod : String
  serviceAccount : String
  spiffeId : String
  securityIdentity : Nat
  labels : Labels
  node : String
  ciliumLabels : List String
  services : List ServiceRefProto
  deriving DecidableEq

/-- `identityv1.Service`. -/
structure ServiceProto where
  name : String
  «namespace» : String
  clusterIps : List String
  ports : List Nat
  deriving DecidableEq

end Hypergate.Identity

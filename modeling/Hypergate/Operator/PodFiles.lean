import Hypergate.Operator.PodNames
import Hypergate.Operator.RedisRefs

/-!
# Files of the engine config in the engine pod

Two controllers work from the same objects: the compiler writes file paths into the
engine config, and the pod builder mounts the volumes that are to hold these files. They
agree only because both form the same texts from the same names.

`EngineReads` says which file a path is: the only mount of the engine container over the
path, and what the volume of that name holds. A mount knows its volume by name, so with
two volumes of one name the file is not determined: that is what `engine_files_provided`
has to exclude.
-/

namespace Hypergate.Operator

open Lib Policy Routing

/-! ## Reading a path -/

/-- `path` is `file` in the directory `dir`. -/
def Within (dir file path : String) : Prop :=
  path = dir ++ "/" ++ file ∨ dir.toList.getLast? = some '/' ∧ path = dir ++ file

/-- The cluster that the compiler lists, with these filters. -/
def EngineObjects.cluster (objs : EngineObjects) (rest : Cluster) : Cluster :=
  { rest with
    externalAuth :=
      { items := objs.externalAuths.items.map (·.toExternalAuthFilter)
        nodup := by rw [List.map_map]; exact objs.externalAuths.nodup }
    firewall :=
      { items := objs.firewalls.items.map (·.toFirewallFilter)
        nodup := by rw [List.map_map]; exact objs.firewalls.nodup }
    jwtAuth := objs.jwts }

section Mounts

variable {objs : EngineObjects} {identity : IdentitySettings} {o : objs.BuildOrder}

end Mounts

/-! ## What the pod provides -/

section Provided

variable {resources : Option Yaml} {engineImage «namespace» : String} {objs : EngineObjects}
  {identity : IdentitySettings} {o : objs.BuildOrder}

variable {ref : SecretKeyRef}

end Provided

/-! ## What the compiler writes -/

section Compiled

variable {codec : SpecCodec} {objs : EngineObjects} {rest : Cluster} {chain : HyperChain}
  {ref : FilterReference} {fc : FilterConfig}

end Compiled

end Hypergate.Operator

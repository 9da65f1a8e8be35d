import Kubespray.Inventory.State

/-! The operations of the inventory builder on groups: purge_invalid_hosts,
add_host_to_group and the setters of the roles. -/
namespace Kubespray.Inventory

namespace HostsKey

def len : HostsKey → Except PyError Nat
  | .mapping d => .ok d.keys.length
  | .null => .error .typeError
  | .missing => .error (.keyError "hosts")

def contains (host : String) : HostsKey → Except PyError Bool
  | .mapping d => .ok (host ∈ d.keys)
  | .null => .error .typeError
  | .missing => .error (.keyError "hosts")

end HostsKey

namespace AllGroup

def getGroup (a : AllGroup) (group : String) : Except PyError Group :=
  match a.children.lookup group with
  | some g => .ok g
  | none => .error (.keyError group)

def setGroup (a : AllGroup) (group : String) (g : Group) : AllGroup :=
  { a with children := a.children.setItem group g }

/-- One round of the loop over the roles in purge_invalid_hosts. -/
def purgeRole (keep : String → Bool) (a : AllGroup) (role : String) : Except PyError AllGroup :=
  if role = "k8s_cluster" then .ok a
  else do
    let g ← a.getGroup role
    match g.hosts with
    | .missing => .error (.keyError "hosts")
    | .null => .ok a
    | .mapping d => .ok (a.setGroup role { g with hosts := .mapping (d.filterKeys keep) })

def purgeInvalidHosts (hostnames protectedNames : List String) (a : AllGroup) :
    Except PyError AllGroup := do
  let keep host := decide (host ∈ hostnames) || decide (host ∈ protectedNames)
  let a ← a.children.keys.foldlM (purgeRole keep) a
  match a.hosts with
  | .missing => .error (.keyError "hosts")
  | .null => .ok a
  | .mapping d => .ok { a with hosts := .mapping (d.filterKeys keep) }

def addHostToGroup (group host : String) (opts : Value) (a : AllGroup) : Except PyError AllGroup :=
  if group = "all" then
    match a.hosts with
    | .missing => .error (.keyError "hosts")
    | .null => .ok { a with hosts := .mapping (((∅ : HostMap).setItem host .null).setItem host opts) }
    | .mapping d => .ok { a with hosts := .mapping (d.setItem host opts) }
  else if group ≠ "k8s_cluster:children" then do
    let g ← a.getGroup group
    match g.hosts with
    | .missing => .error (.keyError "hosts")
    | .null => .ok (a.setGroup group { g with hosts := .mapping ((∅ : HostMap).setItem host .null) })
    | .mapping d => .ok (a.setGroup group { g with hosts := .mapping (d.setItem host .null) })
  else .ok a

/-- The setters that add every host they are given to one group. -/
def addHosts (group : String) (hosts : List String) (a : AllGroup) : Except PyError AllGroup :=
  hosts.foldlM (fun a host => a.addHostToGroup group host (.str "")) a

def setKubeControlPlane (hosts : List String) (a : AllGroup) : Except PyError AllGroup :=
  a.addHosts "kube_control_plane" hosts

def setEtcd (hosts : List String) (a : AllGroup) : Except PyError AllGroup := a.addHosts "etcd" hosts

def setAll (hosts : HostMap) (a : AllGroup) : Except PyError AllGroup :=
  hosts.entries.foldlM (fun a e => a.addHostToGroup "all" e.1 e.2) a

def setK8sCluster (a : AllGroup) : AllGroup :=
  a.setGroup "k8s_cluster" ⟨.missing, some ["kube_control_plane", "kube_node"]⟩

/-- set_calico_rr looks for the host among the keys of the groups' own mappings, not of
their 'hosts'. -/
def addCalicoRr (a : AllGroup) (host : String) : Except PyError AllGroup := do
  let controlPlane ← a.getGroup "kube_control_plane"
  if host ∈ controlPlane.keys then .ok a
  else
    let kubeNode ← a.getGroup "kube_node"
    if host ∈ kubeNode.keys then .ok a else a.addHostToGroup "calico_rr" host (.str "")

def setCalicoRr (hosts : List String) (a : AllGroup) : Except PyError AllGroup :=
  hosts.foldlM addCalicoRr a

/-- `host in self.yaml_config['all']['children'][group]['hosts']` -/
def inGroup (a : AllGroup) (group host : String) : Except PyError Bool := do
  let g ← a.getGroup group
  g.hosts.contains host

def inGroupFrom (a : AllGroup) (threshold : Int) (n : Nat) (group host : String) :
    Except PyError Bool :=
  if threshold ≤ n then a.inGroup group host else .ok false

/-- One round of the loop in set_kube_node. -/
def addKubeNode (s : Settings) (a : AllGroup) (host : String) : Except PyError AllGroup := do
  let n ← a.hosts.len
  let isEtcd ← a.inGroupFrom s.scaleThreshold n "etcd" host
  if isEtcd then .ok a
  else
    let isControlPlane ← a.inGroupFrom s.massiveScaleThreshold n "kube_control_plane" host
    if isControlPlane then .ok a else a.addHostToGroup "kube_node" host (.str "")

def setKubeNode (s : Settings) (hosts : List String) (a : AllGroup) : Except PyError AllGroup :=
  hosts.foldlM (addKubeNode s) a

end AllGroup
end Kubespray.Inventory

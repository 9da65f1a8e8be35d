import Kubespray.Lib.Tasks
import Mathlib.Logic.Function.Basic

/-! upgrade-cluster.yml on one node of the cluster, with the roles upgrade/pre-upgrade and
upgrade/post-upgrade around the others. -/
namespace Kubespray.Upgrade
open Playbook

/-- The nodes that are registered, and whether pods may be scheduled on them. -/
abbrev Cluster := String → Option Bool

structure HostVars where
  inventoryHostname : String
  kubeOverrideHostname : Option String
  /-- The name that the cloud provider gives the node; kubelet takes it where the override is
  empty. -/
  cloudName : String
  inControlPlane : Bool

namespace HostVars
variable (h : HostVars)

/-- `kube_override_hostname|default(inventory_hostname)` -/
def name : String := h.kubeOverrideHostname.getD h.inventoryHostname

/-- The node that the host is registered as. -/
def node : String := if h.name = "" then h.cloudName else h.name

end HostVars

/-- How a query with `failed_when: false` ends: an error leaves its stdout empty. -/
inductive Answer where
  | given
  | missing
  | aborted
  deriving DecidableEq

/-- What one run is told, what it finds and how its tasks end. -/
structure Run where
  upgradeNodeConfirm : Bool
  upgradeNodePauseSeconds : Nat
  drainNodes : Bool
  drainPodSelector : String
  upgradeNodeUncordonAfterDrainFailure : Bool
  upgradeNodeFailIfDrainFails : Bool
  /-- The other nodes at its start. -/
  others : Cluster
  /-- The status of the node's condition Ready. -/
  readyStatus : String
  /-- The plays before the one that upgrades the node. -/
  earlier : Outcome
  role : String → Outcome
  confirm : Outcome
  wait : Outcome
  ready : Answer
  schedulable : Answer
  cordon : Outcome
  kubectlVersion : Outcome
  minimumVersion : Outcome
  /-- The last attempt. -/
  drain : Outcome
  rescueUncordon : Outcome
  uncordon : Outcome
  /-- The plays after it. -/
  later : Outcome

structure RunState where
  cluster : Cluster
  kubectlNodeReady : String
  kubectlNodeSchedulable : String
  needsCordoning : Option Bool

/-- `kubectl cordon` and `kubectl uncordon`: refused without a name, or for a node that is not
there. -/
def kubectlSet (name : String) (schedulable : Bool) (s : RunState) : Option RunState :=
  if name = "" then none
  else (s.cluster name).map fun _ =>
    { s with cluster := Function.update s.cluster name (some schedulable) }

section Roles
variable (h : HostVars) (r : Run)

/-- What `kubectl get node` prints of the node, given what is printed of one that is found. -/
def kubectlGet (text : Bool → String) (answer : Answer) (s : RunState) : String :=
  if answer = .given ∧ h.name ≠ "" then ((s.cluster h.name).map text).getD "" else ""

def seeIfReady : Action RunState := fun s =>
  let s' := { s with kubectlNodeReady := kubectlGet h (fun _ => r.readyStatus) r.ready s }
  if r.ready = .aborted then .aborted s else .completed s'

/-- `.spec.unschedulable` is there only for nodes that are cordoned. -/
def seeIfSchedulable : Action RunState := fun s =>
  let s' := { s with
    kubectlNodeSchedulable := kubectlGet h (fun b => if b then "" else "true") r.schedulable s }
  if r.schedulable = .aborted then .aborted s else .completed s'

def setIfNeedsCordoning : Action RunState := fun s =>
  .completed { s with
    needsCordoning := some (s.kubectlNodeReady = "True" && s.kubectlNodeSchedulable = "") }

/-- The checks that a drain with a pod selector needs. -/
def selectorChecks : List (Action RunState) := [
  only (r.drainNodes && r.drainPodSelector ≠ "") (noEffect r.kubectlVersion),
  only (r.drainNodes && r.drainPodSelector ≠ "") (noEffect r.minimumVersion)]

/-- The tasks of the block "Node draining"; a drain begins with a cordon of its own. -/
def drainingTasks : List (Action RunState) :=
  [perform r.cordon (kubectlSet h.name false)] ++ selectorChecks r ++
    [only r.drainNodes (perform r.drain (kubectlSet h.name false))]

/-- Its rescue section, which names the node by inventory_hostname. -/
def drainingRescue : List (Action RunState) := [
  only r.upgradeNodeUncordonAfterDrainFailure
    (perform r.rescueUncordon (kubectlSet h.inventoryHostname true)),
  only r.upgradeNodeFailIfDrainFails .failed]

def nodeDraining : Action RunState := fun s =>
  only (s.needsCordoning = some true) (block (drainingTasks h r) (drainingRescue h r)) s

def preUpgrade : List (Action RunState) := [
  only r.upgradeNodeConfirm (noEffect r.confirm),
  only (!r.upgradeNodeConfirm && r.upgradeNodePauseSeconds ≠ 0) (noEffect r.wait),
  seeIfReady h r,
  seeIfSchedulable h r,
  setIfNeedsCordoning,
  nodeDraining h r]

def postUpgrade : List (Action RunState) := [
  fun s => only (s.needsCordoning.getD false) (perform r.uncordon (kubectlSet h.name true)) s]

inductive Role where
  | preUpgrade
  | postUpgrade
  | other (name : String)

/-- "Handle upgrades to master components first" -/
def controlPlaneRoles : List Role :=
  [.other "kubespray-defaults", .preUpgrade, .other "container-engine", .other "kubernetes/node",
    .other "kubernetes/control-plane", .other "kubernetes/client", .other "kubernetes/node-label",
    .other "kubernetes-apps/cluster_roles", .other "kubernetes-apps", .postUpgrade]

/-- "Finally handle worker upgrades" -/
def workerRoles : List Role :=
  [.other "kubespray-defaults", .preUpgrade, .other "container-engine", .other "kubernetes/node",
    .other "kubernetes/kubeadm", .other "kubernetes/node-label", .postUpgrade]

def roleTasks : Role → List (Action RunState)
  | .preUpgrade => preUpgrade h r
  | .postUpgrade => postUpgrade h r
  | .other name => [noEffect (r.role name)]

def upgradeCluster : Action RunState :=
  inOrder ([noEffect r.earlier] ++
    (if h.inControlPlane then controlPlaneRoles else workerRoles).flatMap (roleTasks h r) ++
    [noEffect r.later])

/-- The state in which a run begins that finds the node schedulable or not. -/
def startState (schedulable : Bool) : RunState where
  cluster := Function.update r.others h.node (some schedulable)
  kubectlNodeReady := ""
  kubectlNodeSchedulable := ""
  needsCordoning := none

/-- A run, for the node that it finds schedulable or not. -/
def upgrade (schedulable : Bool) : Ended RunState := upgradeCluster h r (startState h r schedulable)

/-- Whether the node is schedulable in a state. -/
def RunState.nodeSchedulable (s : RunState) : Bool := (s.cluster h.node).getD false

end Roles
end Kubespray.Upgrade

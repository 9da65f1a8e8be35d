import Kubespray.Inventory.Builder
import Kubespray.Inventory.Members

/-! What one run of the inventory builder makes of the groups, as a rule on lists of
hosts, and that the builder follows the rule on every configuration of the documented shape. -/
namespace Kubespray.Inventory

structure Assignment where
  all : List String
  etcd : List String
  controlPlane : List String
  kubeNode : List String
  calicoRr : List String

def survivors (hosts l : List String) : List String :=
  l.filter fun h => h ∈ hosts || h ∈ protectedNames

namespace Assignment

def empty : Assignment := ⟨[], [], [], [], []⟩

def etcdHosts (hosts : List String) : List String := hosts.take (etcdHostsCount hosts.length)

/-- The run that is left with `hosts`. -/
def assign (s : Settings) (hosts : List String) (v : Assignment) : Assignment where
  all := addKeys (survivors hosts v.all) hosts
  etcd := addKeys (survivors hosts v.etcd) (etcdHosts hosts)
  controlPlane := addKeys (survivors hosts v.controlPlane) (controlPlaneHosts s hosts)
  kubeNode := addKeys (survivors hosts v.kubeNode) (hosts.filter
    (becomesNode s (addKeys (survivors hosts v.all) hosts).length
      (addKeys (survivors hosts v.etcd) (etcdHosts hosts))
      (addKeys (survivors hosts v.controlPlane) (controlPlaneHosts s hosts))))
  calicoRr := addKeys (survivors hosts v.calicoRr)
    (if s.scaleThreshold ≤ hosts.length then (etcdHosts hosts).filter (· ≠ "hosts") else [])

end Assignment

namespace AllGroup

def hostNames (a : AllGroup) : List String :=
  match a.hosts with
  | .mapping d => d.keys
  | _ => []

def assignment (a : AllGroup) : Assignment where
  all := a.hostNames
  etcd := a.members "etcd"
  controlPlane := a.members "kube_control_plane"
  kubeNode := a.members "kube_node"
  calicoRr := a.members "calico_rr"

/-- The documented shape. -/
structure WellShaped (a : AllGroup) : Prop where
  hosts : ∃ d, a.hosts = .mapping d
  mappings : a.HostsInMappings
  plain : ∀ g ∈ ["kube_control_plane", "kube_node", "etcd", "calico_rr"], a.IsPlain g
  cluster : "k8s_cluster" ∈ a.children.keys

end AllGroup

theorem AllGroup.IsPlain.table_eq {a : AllGroup} {g : String} (h : a.IsPlain g) :
    a.table g = some (a.members g, none) := by
  obtain ⟨l, hl⟩ := h
  simp [AllGroup.members, hl]

theorem AllGroup.Adds.members_of_ne {g : String} {hs : List String} {a a' : AllGroup}
    (h : AllGroup.Adds g hs a a') {x : String} (hx : x ≠ g) : a'.members x = a.members x := by
  rw [AllGroup.members, h.table_of_ne hx, AllGroup.members]

theorem AllGroup.Adds.members_self {g : String} {hs : List String} {a a' : AllGroup}
    (h : AllGroup.Adds g hs a a') (hp : a.IsPlain g) : a'.members g = addKeys (a.members g) hs := by
  rw [AllGroup.members, h.table_self hp.table_eq]
  rfl

theorem AllGroup.Adds.mappings {g : String} {hs : List String} {a a' : AllGroup}
    (h : AllGroup.Adds g hs a a') (hm : a.HostsInMappings) : a'.HostsInMappings := by
  intro x hx hne
  rw [h.table_isSome]
  exact hm x (h.keys ▸ hx) hne

/-- The state after purging, set_all and set_k8s_cluster. -/
theorem purged_spec (hosts : HostMap) (a : AllGroup) (hw : a.WellShaped) :
    ∃ b c, a.purgeInvalidHosts hosts.keys protectedNames = .ok b ∧ b.setAll hosts = .ok c ∧
      c.setK8sCluster.WellShaped ∧
      (∃ d, c.hosts = .mapping d ∧ d.keys = addKeys (survivors hosts.keys a.hostNames) hosts.keys) ∧
      ∀ g ∈ ["kube_control_plane", "kube_node", "etcd", "calico_rr"],
        c.setK8sCluster.members g = survivors hosts.keys (a.members g) := by
  obtain ⟨d, hd⟩ := hw.hosts
  obtain ⟨b, hb, hbh, hbk, hbt⟩ := a.purgeInvalidHosts_spec hosts.keys d hd hw.mappings
  have hc := b.setAll_spec hosts _ hbh
  set c : AllGroup := { b with hosts := .mapping ((d.filterKeys fun h =>
    h ∈ hosts.keys || h ∈ protectedNames).setAll hosts.entries) } with hcdef
  have htable : ∀ x, x ≠ "k8s_cluster" → c.setK8sCluster.table x = (a.table x).map fun p =>
      (survivors hosts.keys p.1, p.2) := by
    intro x hx
    rw [AllGroup.table_setK8sCluster c x hx]
    exact hbt x hx
  have hkeys : c.setK8sCluster.children.keys = a.children.keys := by
    rw [AllGroup.setK8sCluster, AllGroup.setGroup_keys]
    have hbc : c.children.keys = a.children.keys := hbk
    rw [hbc, addKey_of_mem _ _ hw.cluster]
  have hplain : ∀ g ∈ ["kube_control_plane", "kube_node", "etcd", "calico_rr"],
      c.setK8sCluster.table g = some (survivors hosts.keys (a.members g), none) := by
    intro g hg
    have hne : g ≠ "k8s_cluster" := by
      intro he
      subst he
      exact absurd hg (by decide)
    rw [htable g hne, (hw.plain g hg).table_eq]
    rfl
  refine ⟨b, c, hb, hc, ⟨⟨_, rfl⟩, ?_, fun g hg => ⟨_, hplain g hg⟩, hkeys ▸ hw.cluster⟩,
    ⟨_, rfl, ?_⟩, fun g hg => ?_⟩
  · intro x hx hne
    rw [htable x hne, Option.isSome_map]
    exact hw.mappings x (hkeys ▸ hx) hne
  · rw [OrderedDict.keys_setAll, OrderedDict.keys_filterKeys, AllGroup.hostNames, hd]
    rfl
  · rw [AllGroup.members, hplain g hg]
    rfl

theorem AllGroup.Adds.wellShaped {g : String} {hs : List String} {a a' : AllGroup}
    (h : AllGroup.Adds g hs a a') (hw : a.WellShaped) : a'.WellShaped where
  hosts := h.hosts ▸ hw.hosts
  mappings := h.mappings hw.mappings
  plain x hx := h.isPlain (hw.plain x hx)
  cluster := h.keys ▸ hw.cluster

/-- On a configuration of the documented shape the groups are filled by the rule. -/
theorem assignHosts_spec (s : Settings) (hosts : HostMap) (a : AllGroup) (hw : a.WellShaped) :
    ∃ a', assignHosts s hosts a = .ok a' ∧ a'.WellShaped ∧
      a'.children.lookup "k8s_cluster" =
        some ⟨.missing, some ["kube_control_plane", "kube_node"]⟩ ∧
      a'.assignment = a.assignment.assign s hosts.keys := by
  obtain ⟨b, c, hb, hc, hwc, ⟨d, hcd, hdk⟩, hmem⟩ := purged_spec hosts a hw
  -- one step for each of the setters
  obtain ⟨x1, hx1, h1⟩ := AllGroup.addHosts_spec "etcd" (Assignment.etcdHosts hosts.keys)
    c.setK8sCluster (hwc.plain "etcd" (by decide)).isSome (by decide) (by decide)
  have hw1 := h1.wellShaped hwc
  obtain ⟨x2, hx2, h2⟩ := AllGroup.addHosts_spec "kube_control_plane"
    (controlPlaneHosts s hosts.keys) x1 (hw1.plain "kube_control_plane" (by decide)).isSome
    (by decide) (by decide)
  have hw2 := h2.wellShaped hw1
  have hd2 : x2.hosts = .mapping d := by rw [h2.hosts, h1.hosts]; exact hcd
  obtain ⟨x3, hx3, h3⟩ := AllGroup.setKubeNode_spec s hosts.keys x2 d hd2
    (hw2.plain "etcd" (by decide)) (hw2.plain "kube_control_plane" (by decide))
    (hw2.plain "kube_node" (by decide)).isSome
  have hw3 := h3.wellShaped hw2
  obtain ⟨x4, hx4, h4⟩ : ∃ x4, (if s.scaleThreshold ≤ hosts.keys.length then
      x3.setCalicoRr (Assignment.etcdHosts hosts.keys) else .ok x3) = .ok x4 ∧
      AllGroup.Adds "calico_rr" (if s.scaleThreshold ≤ hosts.keys.length then
        (Assignment.etcdHosts hosts.keys).filter (· ≠ "hosts") else []) x3 x4 := by
    split
    · exact AllGroup.setCalicoRr_spec _ x3 (hw3.plain _ (by decide)) (hw3.plain _ (by decide))
        (hw3.plain _ (by decide)).isSome
    · exact ⟨x3, rfl, AllGroup.Adds.refl _ x3⟩
  -- the members of each group, from the last setter back to the purged state
  have hetcd2 : x2.members "etcd" =
      addKeys (survivors hosts.keys (a.members "etcd")) (Assignment.etcdHosts hosts.keys) := by
    rw [h2.members_of_ne (by decide), h1.members_self (hwc.plain _ (by decide)),
      hmem _ (by decide)]
  have hcp2 : x2.members "kube_control_plane" =
      addKeys (survivors hosts.keys (a.members "kube_control_plane"))
        (controlPlaneHosts s hosts.keys) := by
    rw [h2.members_self (hw1.plain _ (by decide)), h1.members_of_ne (by decide),
      hmem _ (by decide)]
  refine ⟨x4, ?_, h4.wellShaped hw3, ?_, ?_⟩
  · rw [assignHosts, hb, Except.bind_ok, hc, Except.bind_ok]
    simp only [AllGroup.setEtcd, AllGroup.setKubeControlPlane]
    rw [← Assignment.etcdHosts, hx1, Except.bind_ok, hx2, Except.bind_ok, hx3, Except.bind_ok, hx4]
  · rw [h4.other _ (by decide), h3.other _ (by decide), h2.other _ (by decide),
      h1.other _ (by decide)]
    simp [AllGroup.setK8sCluster]
  · have hall : x4.hostNames = addKeys (survivors hosts.keys a.hostNames) hosts.keys := by
      rw [AllGroup.hostNames, h4.hosts, h3.hosts, hd2]
      exact hdk
    have hetcd : x4.members "etcd" =
        addKeys (survivors hosts.keys (a.members "etcd")) (Assignment.etcdHosts hosts.keys) := by
      rw [h4.members_of_ne (by decide), h3.members_of_ne (by decide), hetcd2]
    have hcp : x4.members "kube_control_plane" =
        addKeys (survivors hosts.keys (a.members "kube_control_plane"))
          (controlPlaneHosts s hosts.keys) := by
      rw [h4.members_of_ne (by decide), h3.members_of_ne (by decide), hcp2]
    have hnode := h3.members_self (hw2.plain "kube_node" (by decide))
    rw [h2.members_of_ne (by decide), h1.members_of_ne (by decide), hmem _ (by decide), hetcd2, hcp2,
      hdk, ← h4.members_of_ne (by decide)] at hnode
    have hrr := h4.members_self (hw3.plain "calico_rr" (by decide))
    rw [h3.members_of_ne (by decide), h2.members_of_ne (by decide), h1.members_of_ne (by decide),
      hmem _ (by decide)] at hrr
    rw [AllGroup.assignment, hall, hetcd, hcp, hnode, hrr]
    rfl

end Kubespray.Inventory

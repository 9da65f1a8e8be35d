import Kubespray.Inventory.Run
import Mathlib.Data.List.Perm.Subperm
import Mathlib.Data.List.TakeDrop

/-! Large deployments: where calico_rr lies, and whether etcd, the control plane and the
nodes are apart, after each of a sequence of runs. -/
namespace Kubespray.Inventory

theorem mem_survivors (hosts l : List String) (h : String) :
    h ∈ survivors hosts l ↔ h ∈ l ∧ (h ∈ hosts ∨ h ∈ protectedNames) := by
  simp [survivors]

theorem mem_of_mem_etcdHosts {hosts : List String} {h : String}
    (hh : h ∈ Assignment.etcdHosts hosts) : h ∈ hosts := List.mem_of_mem_take hh

theorem mem_pySlice {l : List String} {start stop : Int} {x : String} (h : x ∈ pySlice l start stop) :
    x ∈ l.drop (sliceIndex l.length start) := by
  rw [pySlice, List.drop_take] at h
  exact List.mem_of_mem_take h

/-- From the threshold on the control plane is picked behind the etcd hosts. -/
theorem not_mem_controlPlaneHosts (s : Settings) (hosts : List String) (hnd : hosts.Nodup)
    (hscale : s.scaleThreshold ≤ hosts.length) {h : String}
    (hh : h ∈ Assignment.etcdHosts hosts) : h ∉ controlPlaneHosts s hosts := by
  intro hc
  rw [controlPlaneHosts, if_pos hscale] at hc
  have hdrop := mem_pySlice hc
  have hidx : sliceIndex hosts.length (etcdHostsCount hosts.length) =
      min (etcdHostsCount hosts.length) hosts.length := by
    have hneg : ¬ ((etcdHostsCount hosts.length : Nat) : Int) < 0 := by omega
    rw [sliceIndex, if_neg hneg, Int.toNat_natCast]
  have htake : h ∈ hosts.take (min (etcdHostsCount hosts.length) hosts.length) := by
    rw [← List.take_eq_take_min]
    exact hh
  rw [hidx] at hdrop
  exact List.disjoint_take_drop hnd (Nat.le_refl _) htake hdrop

theorem length_le_length_addKeys (l hosts : List String) (hnd : hosts.Nodup) :
    hosts.length ≤ (addKeys l hosts).length := by
  have hsub : hosts ⊆ addKeys l hosts := fun x hx => (mem_addKeys l hosts x).mpr (.inr hx)
  exact (List.subperm_of_subset hnd hsub).length_le

namespace Assignment
variable (s : Settings) (hosts : List String) (v : Assignment)

theorem mem_assign_etcd (h : String) : h ∈ (v.assign s hosts).etcd ↔
    h ∈ survivors hosts v.etcd ∨ h ∈ etcdHosts hosts := mem_addKeys _ _ _

theorem mem_assign_controlPlane (h : String) : h ∈ (v.assign s hosts).controlPlane ↔
    h ∈ survivors hosts v.controlPlane ∨ h ∈ controlPlaneHosts s hosts := mem_addKeys _ _ _

theorem mem_assign_kubeNode (h : String) : h ∈ (v.assign s hosts).kubeNode ↔
    h ∈ survivors hosts v.kubeNode ∨ (h ∈ hosts ∧ becomesNode s (v.assign s hosts).all.length
      (v.assign s hosts).etcd (v.assign s hosts).controlPlane h = true) := by
  rw [assign, mem_addKeys, List.mem_filter]

theorem mem_assign_calicoRr (h : String) : h ∈ (v.assign s hosts).calicoRr ↔
    h ∈ survivors hosts v.calicoRr ∨
      (s.scaleThreshold ≤ hosts.length ∧ h ∈ etcdHosts hosts ∧ h ≠ "hosts") := by
  rw [assign, mem_addKeys]
  by_cases hs : s.scaleThreshold ≤ hosts.length <;> simp [hs]

def InCluster (h : String) : Prop := h ∈ v.controlPlane ∨ h ∈ v.kubeNode

/-- What the run gives to calico_rr is in k8s_cluster exactly when it was there before. -/
theorem assign_calicoRr_iff (hnd : hosts.Nodup) (hv : ∀ h ∈ v.calicoRr, v.InCluster h) :
    (∀ h ∈ (v.assign s hosts).calicoRr, (v.assign s hosts).InCluster h) ↔
      (s.scaleThreshold ≤ hosts.length → ∀ h ∈ etcdHosts hosts, h ≠ "hosts" → v.InCluster h) := by
  have hkept : ∀ h, h ∈ hosts ∨ h ∈ protectedNames → v.InCluster h →
      (v.assign s hosts).InCluster h := by
    intro h hh hin
    refine hin.imp (fun hc => ?_) (fun hn => ?_)
    · exact (mem_assign_controlPlane s hosts v h).mpr (.inl ((mem_survivors _ _ _).mpr ⟨hc, hh⟩))
    · exact (mem_assign_kubeNode s hosts v h).mpr (.inl ((mem_survivors _ _ _).mpr ⟨hn, hh⟩))
  constructor
  · intro hin hscale h hh hne
    cases hin h ((mem_assign_calicoRr s hosts v h).mpr (.inr ⟨hscale, hh, hne⟩)) with
    | inl hc =>
      rcases (mem_assign_controlPlane s hosts v h).mp hc with hc | hc
      · exact .inl ((mem_survivors _ _ _).mp hc).1
      · exact absurd hc (not_mem_controlPlaneHosts s hosts hnd hscale hh)
    | inr hn =>
      rcases (mem_assign_kubeNode s hosts v h).mp hn with hn | ⟨-, hn⟩
      · exact .inr ((mem_survivors _ _ _).mp hn).1
      · -- an etcd host of this run is not made a node at scale
        have hetcd := (mem_assign_etcd s hosts v h).mpr (.inr hh)
        have hall : hosts.length ≤ (v.assign s hosts).all.length :=
          length_le_length_addKeys _ hosts hnd
        have hscale' : s.scaleThreshold ≤ (v.assign s hosts).all.length := by omega
        simp [becomesNode, hscale', hetcd] at hn
  · intro hcond h hh
    rcases (mem_assign_calicoRr s hosts v h).mp hh with hs | ⟨hscale, he, hne⟩
    · obtain ⟨hr, hm⟩ := (mem_survivors _ _ _).mp hs
      exact hkept h hm (hv h hr)
    · exact hkept h (.inl (mem_of_mem_etcdHosts he)) (hcond hscale h he hne)

/-- No host has two of the roles that are kept apart at scale. -/
structure Separated : Prop where
  etcd : ∀ h ∈ v.etcd, h ∉ v.kubeNode ∧ h ∉ v.controlPlane
  calicoRr : ∀ h ∈ v.calicoRr, h ∉ v.controlPlane ∧ h ∉ v.kubeNode

theorem assign_calicoRr_subset (hv : v.calicoRr ⊆ v.etcd) :
    (v.assign s hosts).calicoRr ⊆ (v.assign s hosts).etcd := by
  intro h hh
  rw [mem_assign_etcd]
  rcases (mem_assign_calicoRr s hosts v h).mp hh with hs | ⟨-, he, -⟩
  · obtain ⟨hr, hm⟩ := (mem_survivors _ _ _).mp hs
    exact .inl ((mem_survivors _ _ _).mpr ⟨hv hr, hm⟩)
  · exact .inr he

/-- At scale a run ends with the roles apart exactly when no host that stays a node or in
the control plane, or is now picked for the control plane, stays in etcd or is picked for it. -/
theorem assign_separated_iff (hv : v.calicoRr ⊆ v.etcd)
    (hscale : s.scaleThreshold ≤ (v.assign s hosts).all.length) :
    (v.assign s hosts).Separated ↔ ∀ h, h ∈ survivors hosts v.kubeNode ∨
      h ∈ survivors hosts v.controlPlane ∨ h ∈ controlPlaneHosts s hosts →
        h ∉ survivors hosts v.etcd ∧ h ∉ etcdHosts hosts := by
  constructor
  · intro hsep h hh
    rw [← not_or, ← mem_assign_etcd s hosts v h]
    intro he
    obtain ⟨hn, hc⟩ := hsep.etcd h he
    rcases hh with hh | hh | hh
    · exact hn ((mem_assign_kubeNode s hosts v h).mpr (.inl hh))
    · exact hc ((mem_assign_controlPlane s hosts v h).mpr (.inl hh))
    · exact hc ((mem_assign_controlPlane s hosts v h).mpr (.inr hh))
  · intro hcond
    have hetcd : ∀ h ∈ (v.assign s hosts).etcd,
        h ∉ (v.assign s hosts).kubeNode ∧ h ∉ (v.assign s hosts).controlPlane := by
      intro h he
      have hno : ¬ (h ∉ survivors hosts v.etcd ∧ h ∉ etcdHosts hosts) := by
        rw [← not_or, not_not, ← mem_assign_etcd s hosts v h]
        exact he
      constructor
      · intro hn
        rcases (mem_assign_kubeNode s hosts v h).mp hn with hn | ⟨-, hn⟩
        · exact hno (hcond h (.inl hn))
        · simp [becomesNode, hscale, he] at hn
      · intro hc
        exact hno (hcond h (.inr ((mem_assign_controlPlane s hosts v h).mp hc)))
    refine ⟨hetcd, fun h hr => ?_⟩
    exact (hetcd h (assign_calicoRr_subset s hosts v hv hr)).symm

instance : Decidable v.Separated :=
  decidable_of_iff ((∀ h ∈ v.etcd, h ∉ v.kubeNode ∧ h ∉ v.controlPlane) ∧
      ∀ h ∈ v.calicoRr, h ∉ v.controlPlane ∧ h ∉ v.kubeNode)
    ⟨fun h => ⟨h.1, h.2⟩, fun h => ⟨h.etcd, h.calicoRr⟩⟩

end Assignment

namespace AllGroup
variable (a : AllGroup)

def clusterMembers : List String :=
  match a.children.lookup "k8s_cluster" with
  | some ⟨_, some groups⟩ => groups.flatMap a.members
  | _ => []

def CalicoRrInside : Prop := ∀ h ∈ a.members "calico_rr", h ∈ a.clusterMembers

instance : Decidable a.CalicoRrInside := inferInstanceAs (Decidable (∀ h ∈ _, _))

end AllGroup

section Runs
variable (s : Settings)

theorem calicoRrInside_iff (a : AllGroup) (hk : a.children.lookup "k8s_cluster" =
    some ⟨.missing, some ["kube_control_plane", "kube_node"]⟩) :
    a.CalicoRrInside ↔ ∀ h ∈ a.assignment.calicoRr, a.assignment.InCluster h := by
  refine forall₂_congr fun h _ => ?_
  simp [AllGroup.clusterMembers, hk, Assignment.InCluster, AllGroup.assignment]

/-- Along a run calico_rr lies in k8s_cluster exactly when, whenever at least as many hosts
are left as the threshold says, the first of them that go to etcd were in k8s_cluster before. -/
theorem calicoRr_in_cluster_iff (is : List HostArgs) :
    Runs.Along (run s) (fun _ _ o' => (startOf o').CalicoRrInside) none is ↔
      Runs.Along (run s) (fun o i _ => s.scaleThreshold ≤ (remaining s o i).length →
        ∀ h ∈ Assignment.etcdHosts (remaining s o i), h ≠ "hosts" →
          (startOf o).assignment.InCluster h) none is := by
  have hiff : ∀ o i o', (startOf o).WellShaped ∧
      (∀ h ∈ (startOf o).assignment.calicoRr, (startOf o).assignment.InCluster h) →
      run s o i = .ok o' → ((startOf o').CalicoRrInside ↔
        (s.scaleThreshold ≤ (remaining s o i).length →
          ∀ h ∈ Assignment.etcdHosts (remaining s o i), h ≠ "hosts" →
            (startOf o).assignment.InCluster h)) := by
    intro o i o' ⟨hw, hin⟩ hrun
    obtain ⟨-, hk, hnd, hassign⟩ := run_spec s o o' i hw hrun
    rw [calicoRrInside_iff _ hk, hassign]
    exact Assignment.assign_calicoRr_iff s _ _ hnd hin
  refine Runs.along_iff_along (I := fun o => (startOf o).WellShaped ∧
    ∀ h ∈ (startOf o).assignment.calicoRr, (startOf o).assignment.InCluster h) hiff
    (fun o i o' ⟨hw, _⟩ hrun hR => ?_) ⟨startOf_none_wellShaped, ?_⟩ is
  · obtain ⟨hw', hk, -, -⟩ := run_spec s o o' i hw hrun
    exact ⟨hw', (calicoRrInside_iff _ hk).mp hR⟩
  · intro h hh
    rw [AllGroup.assignment, startOf_none_members "calico_rr" (by decide)] at hh
    cases hh

/-- Along a run the roles are apart whenever there are at least as many hosts as the
threshold says, exactly when no host that stays a node or in the control plane, or is picked
for it, then stays in etcd or is among the first hosts. -/
theorem separated_iff (is : List HostArgs) :
    Runs.Along (run s) (fun _ _ o' => s.scaleThreshold ≤ (startOf o').hostNames.length →
        (startOf o').assignment.Separated) none is ↔
      Runs.Along (run s) (fun o i _ =>
        s.scaleThreshold ≤ (addKeys (survivors (remaining s o i) (startOf o).hostNames)
          (remaining s o i)).length →
        ∀ h, h ∈ survivors (remaining s o i) ((startOf o).members "kube_node") ∨
            h ∈ survivors (remaining s o i) ((startOf o).members "kube_control_plane") ∨
            h ∈ controlPlaneHosts s (remaining s o i) →
          h ∉ survivors (remaining s o i) ((startOf o).members "etcd") ∧
            h ∉ Assignment.etcdHosts (remaining s o i)) none is := by
  refine Runs.along_iff_along (I := fun o => (startOf o).WellShaped ∧
    (startOf o).assignment.calicoRr ⊆ (startOf o).assignment.etcd)
    (fun o i o' ⟨hw, hsub⟩ hrun => ?_) (fun o i o' ⟨hw, hsub⟩ hrun _ => ?_)
    ⟨startOf_none_wellShaped, ?_⟩ is
  · obtain ⟨-, -, -, hassign⟩ := run_spec s o o' i hw hrun
    have hnames : (startOf o').hostNames =
        addKeys (survivors (remaining s o i) (startOf o).hostNames) (remaining s o i) :=
      congrArg Assignment.all hassign
    rw [hnames, hassign]
    exact forall_congr' fun hscale => Assignment.assign_separated_iff s _ _ hsub hscale
  · obtain ⟨hw', -, -, hassign⟩ := run_spec s o o' i hw hrun
    rw [hassign]
    exact ⟨hw', Assignment.assign_calicoRr_subset s _ _ hsub⟩
  · intro h hh
    rw [AllGroup.assignment, startOf_none_members "calico_rr" (by decide)] at hh
    cases hh

end Runs

def fiftyHosts : HostArgs := ⟨["10.0.0.1-10.0.0.50"], by decide, by decide⟩

/-- The first three become route reflectors and are in no child group of k8s_cluster. -/
theorem fifty_hosts_calicoRr_outside : ¬ ∀ is : List HostArgs,
    Runs.Along (run {}) (fun _ _ o' => (startOf o').CalicoRrInside) none is := by
  intro h
  exact absurd (h [fiftyHosts]) (by decide +kernel)

def threeHosts : HostArgs := ⟨["10.0.0.1-10.0.0.3"], by decide, by decide⟩

def fortySevenHosts : HostArgs := ⟨["10.0.0.4-10.0.0.50"], by decide, by decide⟩

/-- The three that were all in one stay so. -/
theorem growth_not_separated : ¬ ∀ is : List HostArgs,
    Runs.Along (run {}) (fun _ _ o' => ({} : Settings).scaleThreshold ≤ (startOf o').hostNames.length →
      (startOf o').assignment.Separated) none is := by
  intro h
  exact absurd (h [threeHosts, fortySevenHosts]) (by decide +kernel)

end Kubespray.Inventory

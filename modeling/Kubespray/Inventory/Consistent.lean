import Kubespray.Inventory.Leftover
import Kubespray.Inventory.Rerun
import Kubespray.Inventory.Scale

/-! What holds of every configuration that runs of the inventory builder lead to, whatever their
settings and arguments. -/
namespace Kubespray.Inventory

section Ips

/-- No two hosts have the same ip. Hosts with the name of a group are left out, as purging does not
take them away again. -/
def UniqueIps (d : HostMap) : Prop :=
  ∀ k k' v v', d.lookup k = some v → d.lookup k' = some v' → k ∉ protectedNames →
    k' ∉ protectedNames → optIp v = optIp v' → k = k'

variable {d d' : HostMap}

theorem UniqueIps.of_lookup (h : UniqueIps d)
    (hsub : ∀ k v, k ∉ protectedNames → d'.lookup k = some v → d.lookup k = some v) :
    UniqueIps d' := by
  intro k k' v v' hk hk' hp hp' hip
  exact h k k' v v' (hsub k v hp hk) (hsub k' v' hp' hk') hp hp' hip

theorem UniqueIps.of_subset (h : UniqueIps d) (hs : d'.entries ⊆ d.entries) : UniqueIps d' := by
  refine h.of_lookup fun k v _ hv => ?_
  exact (d.lookup_eq_some_iff k v).mpr (hs ((d'.lookup_eq_some_iff k v).mp hv))

/-- The ip that exists_ip does not find is no other host's. -/
theorem UniqueIps.addsHost (h : UniqueIps d) (hadds : AddsHost d d') : UniqueIps d' := by
  obtain rfl | ⟨name, ip, accessIp, hnew, rfl⟩ := hadds
  · exact h
  have hfresh : ∀ k v, d.lookup k = some v → optIp v ≠ some ip := by
    intro k v hv hip
    have hno := hasIp_of_existsIp hnew ((d.lookup_eq_some_iff k v).mp hv)
    rw [(hasIp_iff ip v).mpr hip] at hno
    cases hno
  intro k k' v v' hk hk' hp hp' hip
  rw [OrderedDict.lookup_setItem] at hk hk'
  split at hk
  · rename_i hname
    obtain rfl := Option.some.inj hk
    split at hk'
    · rename_i hname'
      rw [hname, hname']
    · exact absurd hip.symm (hfresh k' v' hk')
  · split at hk'
    · obtain rfl := Option.some.inj hk'
      exact absurd hip (hfresh k v hk)
    · exact h k k' v v' hk hk' hp hp' hip

theorem changeHost_uniqueIps (s : Settings) (st st' : Scan) (host : String)
    (h : UniqueIps st.allHosts) (hstep : changeHost s st host = .ok st') : UniqueIps st'.allHosts := by
  cases changeHost_edits s st st' host hstep with
  | inl herase =>
    obtain ⟨name, hname⟩ := herase
    rw [hname]
    exact h.of_subset (List.filter_subset_self _)
  | inr hadds => exact h.addsHost hadds

theorem newHosts_uniqueIps (s : Settings) (a : AllGroup) (d hosts : HostMap)
    (hd : a.hosts = .mapping d) (h : UniqueIps d) (args : List String)
    (hnew : newHosts s a args = .ok hosts) : UniqueIps hosts := by
  obtain ⟨changed, -, hnew⟩ := Runs.bind_eq_ok hnew
  rw [buildHostnames, hd, existingHosts_mapping] at hnew
  obtain ⟨st, hst, hnew⟩ := Runs.bind_eq_ok hnew
  obtain rfl := Except.ok.inj hnew
  exact Runs.foldlM_rel (P := fun st st' : Scan => UniqueIps st.allHosts → UniqueIps st'.allHosts)
    (fun _ => id) (fun _ _ _ hst hst' => hst' ∘ hst) changed
    (fun host _ b b' hb hh => changeHost_uniqueIps s b b' host hh hb) hst
    (h.of_subset (scanned_initial _ _).subset)

/-- What is left of the old hosts under their names is what build_hostnames made of them. -/
theorem lookup_allHostsAfter (hosts d : HostMap) {k : String} (hk : k ∉ protectedNames) :
    (allHostsAfter hosts d).lookup k = hosts.lookup k := by
  rw [allHostsAfter, OrderedDict.lookup_setAll_entries, OrderedDict.lookup_filterKeys]
  cases hl : hosts.lookup k with
  | some v => rfl
  | none =>
    have hout := (hosts.lookup_eq_none_iff k).mp hl
    simp [kept, hout, hk]

end Ips

namespace Assignment
variable (s : Settings) (hosts : List String) (v : Assignment)

/-- The roles go to hosts of the inventory, and none of these is without a role. -/
structure Covers (v : Assignment) : Prop where
  etcd : v.etcd ⊆ v.all
  controlPlane : v.controlPlane ⊆ v.all
  kubeNode : v.kubeNode ⊆ v.all
  calicoRr : v.calicoRr ⊆ v.etcd
  role : ∀ h ∈ v.all, h ∈ v.etcd ∨ h ∈ v.controlPlane ∨ h ∈ v.kubeNode

theorem covers_empty : empty.Covers :=
  ⟨List.nil_subset _, List.nil_subset _, List.nil_subset _, List.nil_subset _, fun _ h => nomatch h⟩

theorem mem_assign_all (h : String) :
    h ∈ (v.assign s hosts).all ↔ h ∈ survivors hosts v.all ∨ h ∈ hosts := mem_addKeys _ _ _

variable {v}

theorem mem_assign_all_of {l picked : List String} (hl : l ⊆ v.all) (hp : picked ⊆ hosts) {h : String}
    (hh : h ∈ survivors hosts l ∨ h ∈ picked) : h ∈ (v.assign s hosts).all := by
  rw [mem_assign_all]
  refine hh.imp (fun hs => ?_) (fun hpick => hp hpick)
  obtain ⟨hm, hkept⟩ := (mem_survivors hosts l h).mp hs
  exact (mem_survivors hosts v.all h).mpr ⟨hl hm, hkept⟩

theorem Covers.assign (hv : v.Covers) : (v.assign s hosts).Covers where
  etcd h hh := mem_assign_all_of s hosts hv.etcd (List.take_subset _ _)
    ((mem_assign_etcd s hosts v h).mp hh)
  controlPlane h hh := mem_assign_all_of s hosts hv.controlPlane (controlPlaneHosts_subset s hosts)
    ((mem_assign_controlPlane s hosts v h).mp hh)
  kubeNode h hh := mem_assign_all_of s hosts hv.kubeNode (List.Subset.refl hosts)
    (((mem_assign_kubeNode s hosts v h).mp hh).imp id And.left)
  calicoRr := assign_calicoRr_subset s hosts v hv.calicoRr
  role := by
    intro h hh
    cases (mem_assign_all s hosts v h).mp hh with
    | inl hs =>
      obtain ⟨hm, hkept⟩ := (mem_survivors hosts v.all h).mp hs
      have hstays : ∀ l, h ∈ l → h ∈ survivors hosts l := fun l hl =>
        (mem_survivors hosts l h).mpr ⟨hl, hkept⟩
      obtain he | hc | hn := hv.role h hm
      · exact .inl ((mem_assign_etcd s hosts v h).mpr (.inl (hstays _ he)))
      · exact .inr (.inl ((mem_assign_controlPlane s hosts v h).mpr (.inl (hstays _ hc))))
      · exact .inr (.inr ((mem_assign_kubeNode s hosts v h).mpr (.inl (hstays _ hn))))
    | inr hm =>
      by_cases he : h ∈ (v.assign s hosts).etcd
      · exact .inl he
      by_cases hc : h ∈ (v.assign s hosts).controlPlane
      · exact .inr (.inl hc)
      refine .inr (.inr ((mem_assign_kubeNode s hosts v h).mpr (.inr ⟨hm, ?_⟩)))
      simp [becomesNode, he, hc]

end Assignment

section Reachable

/-- A run with settings of its own. -/
def settingsRun (o : Option AllGroup) (i : Settings × HostArgs) : Except PyError (Option AllGroup) :=
  run i.1 o i.2

structure Consistent (o : Option AllGroup) : Prop extends Stored o where
  uniqueIps : ∀ d, (startOf o).hosts = .mapping d → UniqueIps d
  covers : (startOf o).assignment.Covers

theorem consistent_none : Consistent none where
  toStored := stored_none
  uniqueIps d hd := by
    obtain rfl : ∅ = d := HostsKey.mapping.inj hd
    intro k k' v v' hk
    cases hk
  covers := by
    have hempty : (startOf none).assignment = Assignment.empty := by
      have hmembers : ∀ g, (startOf none).members g = [] := initial_members
      simp only [AllGroup.assignment, hmembers]
      rfl
    rw [hempty]
    exact Assignment.covers_empty

theorem Consistent.run {s : Settings} {o o' : Option AllGroup} {i : HostArgs} (h : Consistent o)
    (hrun : run s o i = .ok o') : Consistent o' := by
  have hstored := h.toStored.run hrun
  obtain ⟨d, hd, hips⟩ := h.hosts
  rw [Inventory.run, build, ensureRequiredGroups_dict o h.shaped, Except.bind_ok,
    YamlConfig.getAll, Except.bind_ok] at hrun
  cases hnew : newHosts s (startOf o) i.args with
  | error e =>
    rw [hnew] at hrun
    cases hrun
  | ok hosts =>
    obtain ⟨a', ha, hassigned⟩ := assigned_spec s hosts (startOf o) h.shaped
    rw [hnew, Except.bind_ok, ha] at hrun
    obtain rfl : some a' = o' := Except.ok.inj hrun
    have hunique := newHosts_uniqueIps s _ d hosts hd (h.uniqueIps d hd) _ hnew
    refine ⟨hstored, fun d' hd' => ?_, ?_⟩
    · obtain rfl := HostsKey.mapping.inj ((hassigned.all d hd).symm.trans hd')
      exact hunique.of_lookup fun k v hk hv => by rwa [lookup_allHostsAfter hosts d hk] at hv
    · have hcovers := h.covers.assign s hosts.keys
      rwa [← hassigned.assignment] at hcovers

/-- An address and a name, as one call. -/
def addressAndName : HostArgs := ⟨["10.0.0.1", "master,10.0.0.2,192.168.0.2"], by decide, by decide⟩

end Reachable

end Kubespray.Inventory

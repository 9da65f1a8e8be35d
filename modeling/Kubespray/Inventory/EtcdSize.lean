import Kubespray.Inventory.Scale

/-! The number of etcd hosts after each of a sequence of runs, which the preinstall checks
demand to be odd. -/
namespace Kubespray.Inventory

def etcdLeaving (hosts etcd : List String) : List String :=
  etcd.filter fun h => !(h ∈ hosts || h ∈ protectedNames)

def etcdEntering (hosts etcd : List String) : List String :=
  (Assignment.etcdHosts hosts).filter (· ∉ etcd)

theorem length_etcdHosts (hosts : List String) (h : hosts ≠ []) :
    (Assignment.etcdHosts hosts).length = etcdHostsCount hosts.length := by
  have hpos : 0 < hosts.length := List.length_pos_iff.mpr h
  rw [Assignment.etcdHosts, List.length_take, etcdHostsCount]
  split <;> omega

theorem etcdHosts_odd_iff (hosts : List String) :
    ¬ 2 ∣ (Assignment.etcdHosts hosts).length ↔ hosts ≠ [] := by
  constructor
  · intro h he
    subst he
    exact h ⟨0, rfl⟩
  · intro h
    rw [length_etcdHosts hosts h, etcdHostsCount]
    split <;> omega

namespace Assignment
variable (s : Settings) (hosts : List String) (v : Assignment)

theorem length_assign_etcd (hnd : hosts.Nodup) :
    (v.assign s hosts).etcd.length + (etcdLeaving hosts v.etcd).length =
      v.etcd.length + (etcdEntering hosts v.etcd).length := by
  have hlen := length_addKeys (survivors hosts v.etcd) (etcdHosts hosts)
    ((List.take_sublist _ _).nodup hnd)
  have hnew : (etcdHosts hosts).filter (· ∉ survivors hosts v.etcd) =
      etcdEntering hosts v.etcd := by
    refine List.filter_congr fun h hh => ?_
    have hm := mem_survivors hosts v.etcd h
    simp [hm, mem_of_mem_etcdHosts hh]
  have hsplit : (survivors hosts v.etcd).length + (etcdLeaving hosts v.etcd).length =
      v.etcd.length := by
    rw [survivors, etcdLeaving, ← List.length_append]
    exact (List.filter_append_perm _ v.etcd).length_eq
  rw [hnew] at hlen
  have hetcd : (v.assign s hosts).etcd.length =
      (survivors hosts v.etcd).length + (etcdEntering hosts v.etcd).length := hlen
  omega

/-- The run ends with an odd number of etcd hosts exactly when it is the first with a host
at all, or as many hosts enter as leave up to an even number. -/
theorem assign_etcd_odd_iff (hnd : hosts.Nodup) (hv : v.etcd = [] ∨ ¬ 2 ∣ v.etcd.length) :
    ¬ 2 ∣ (v.assign s hosts).etcd.length ↔ if v.etcd = [] then hosts ≠ [] else
      2 ∣ (etcdLeaving hosts v.etcd).length + (etcdEntering hosts v.etcd).length := by
  have hlen := length_assign_etcd s hosts v hnd
  by_cases he : v.etcd = []
  · have hfirst : (v.assign s hosts).etcd.length = (etcdHosts hosts).length := by
      simpa [he, etcdLeaving, etcdEntering] using hlen
    rw [if_pos he, hfirst, etcdHosts_odd_iff]
  · have hodd := hv.resolve_left he
    rw [if_neg he]
    omega

end Assignment

/-- Along a run etcd has an odd number of hosts exactly when, in each run that finds etcd
empty, some host is left, and in each other run the numbers of hosts that leave and enter etcd
add up to an even number. -/
theorem etcd_odd_iff (s : Settings) (is : List HostArgs) :
    Runs.Along (run s) (fun _ _ o' => ¬ 2 ∣ ((startOf o').members "etcd").length) none is ↔
      Runs.Along (run s) (fun o i _ =>
        if (startOf o).members "etcd" = [] then remaining s o i ≠ [] else
          2 ∣ (etcdLeaving (remaining s o i) ((startOf o).members "etcd")).length +
            (etcdEntering (remaining s o i) ((startOf o).members "etcd")).length) none is := by
  refine Runs.along_iff_along (I := fun o => (startOf o).WellShaped ∧
    ((startOf o).members "etcd" = [] ∨ ¬ 2 ∣ ((startOf o).members "etcd").length))
    (fun o i o' ⟨hw, hodd⟩ hrun => ?_) (fun o i o' ⟨hw, _⟩ hrun hR => ?_)
    ⟨startOf_none_wellShaped, .inl (startOf_none_members "etcd" (by decide))⟩ is
  · obtain ⟨-, -, hnd, hassign⟩ := run_spec s o o' i hw hrun
    have hetcd : (startOf o').members "etcd" =
        ((startOf o).assignment.assign s (remaining s o i)).etcd := congrArg Assignment.etcd hassign
    rw [hetcd]
    exact Assignment.assign_etcd_odd_iff s _ _ hnd hodd
  · exact ⟨(run_spec s o o' i hw hrun).1, .inr hR⟩

def deleteFirst : HostArgs := ⟨["-10.0.0.1"], by decide, by decide⟩

/-- Two etcd hosts are left, though each run leaves some host. -/
theorem deletion_leaves_two_etcd_hosts : ¬ ∀ is : List HostArgs,
    Runs.Along (run {}) (fun o i _ => remaining {} o i ≠ []) none is →
      Runs.Along (run {}) (fun _ _ o' => ¬ 2 ∣ ((startOf o').members "etcd").length) none is := by
  intro h
  exact absurd (h [threeHosts, deleteFirst] (by decide +kernel)) (by decide +kernel)

end Kubespray.Inventory

import Kubespray.Inventory.Rerun
import Kubespray.Inventory.Scale
import Mathlib.Data.List.Range

/-! Builds from the empty configuration: the hosts are numbered from one on, one for each
distinct ip. What this makes of the roles, and of a build in two steps. -/
namespace Kubespray.Inventory

section Numbers
variable (s : Settings)

/-- The hosts are numbered without gaps, and no ip is there twice. -/
structure Numbered (p : HostMap × Nat) : Prop where
  keys : p.1.keys = (List.range' 1 p.1.keys.length).map (hostName s)
  next : p.2 = p.1.keys.length + 1
  hasIps : HasIps p.1
  nodup : (hostIps p.1).Nodup

theorem Numbered.fresh {p : HostMap × Nat} (h : Numbered s p) : Fresh s p := by
  intro k hk hm
  rw [h.keys] at hm
  obtain ⟨j, hj, hname⟩ := List.mem_map.mp hm
  obtain rfl := hostName_injective s hname
  have hlt := (List.mem_range'_1.mp hj).2
  have hnext := h.next
  omega

theorem dot_not_mem_hostName (hdot : '.' ∉ s.hostPrefix.toList) (k : Nat) :
    '.' ∉ (hostName s k).toList := by
  have htext : (hostName s k).toList = s.hostPrefix.toList ++ Nat.toDigits 10 k := by
    simp [hostName]
  rw [htext, List.mem_append, not_or]
  exact ⟨hdot, not_mem_toDigits (by decide)⟩

/-- An argument's text is no generated name, so that only its ip can be known. -/
theorem Numbered.known_iff {p : HostMap × Nat} (h : Numbered s p)
    (hdot : '.' ∉ s.hostPrefix.toList) (a : AddressArg) :
    Known p.1 a ↔ a.ip.exploded ∈ hostIps p.1 := by
  refine or_iff_right fun hk => ?_
  rw [h.keys] at hk
  obtain ⟨k, -, hname⟩ := List.mem_map.mp hk
  exact dot_not_mem_hostName s hdot k (hname ▸ a.dot_mem_text)

theorem addTo_numbered (hdot : '.' ∉ s.hostPrefix.toList) (p : HostMap × Nat) (a : AddressArg)
    (h : Numbered s p) : Numbered s (addTo s p a) ∧
      ∀ x, x ∈ hostIps (addTo s p a).1 ↔ x ∈ hostIps p.1 ∨ x = a.ip.exploded := by
  by_cases hk : Known p.1 a
  · rw [addTo_of_known s p a hk]
    refine ⟨h, fun x => ⟨.inl, ?_⟩⟩
    rintro (hx | rfl)
    · exact hx
    · exact (h.known_iff s hdot a).mp hk
  · obtain ⟨hnext, hent⟩ := addTo_of_not_known s p a (h.fresh s) hk
    have hkeys : (addTo s p a).1.keys = p.1.keys ++ [hostName s p.2] := by
      rw [OrderedDict.keys, hent, List.map_append]
      rfl
    have hips : hostIps (addTo s p a).1 = hostIps p.1 ++ [a.ip.exploded] := by
      rw [hostIps, hent, List.filterMap_append]
      rfl
    have hlen : (addTo s p a).1.keys.length = p.1.keys.length + 1 := by simp [hkeys]
    have hnew : a.ip.exploded ∉ hostIps p.1 := fun hm => hk ((h.known_iff s hdot a).mpr hm)
    refine ⟨⟨?_, by rw [hnext, hlen, h.next], addTo_hasIps s p a h.hasIps, ?_⟩, fun x => ?_⟩
    · rw [hlen, List.range'_concat, List.map_append, ← h.keys, hkeys, h.next]
      simp [Nat.add_comm]
    · rw [hips, List.nodup_append]
      refine ⟨h.nodup, List.nodup_singleton _, fun x hx y hy hxy => ?_⟩
      rw [List.mem_singleton] at hy
      exact hnew (hy ▸ hxy ▸ hx)
    · rw [hips, List.mem_append, List.mem_singleton]

theorem foldl_numbered (hdot : '.' ∉ s.hostPrefix.toList) (l : List AddressArg)
    (p : HostMap × Nat) (h : Numbered s p) : Numbered s (l.foldl (addTo s) p) ∧
      ∀ x, x ∈ hostIps (l.foldl (addTo s) p).1 ↔
        x ∈ hostIps p.1 ∨ x ∈ l.map fun a => a.ip.exploded := by
  induction l generalizing p with
  | nil => exact ⟨h, by simp⟩
  | cons a l ih =>
    obtain ⟨hone, hips⟩ := addTo_numbered s hdot p a h
    obtain ⟨hall, hips'⟩ := ih (addTo s p a) hone
    refine ⟨hall, fun x => ?_⟩
    rw [List.foldl_cons, hips', hips, List.map_cons, List.mem_cons, or_assoc]

theorem hostsFrom_empty (l : List AddressArg) :
    hostsFrom s ∅ l = (l.foldl (addTo s) (∅, 1)).1 := rfl

theorem numbered_empty : Numbered s (∅, 1) where
  keys := rfl
  next := rfl
  hasIps k v hv := by simp at hv
  nodup := List.nodup_nil

theorem hostsFrom_numbered (hdot : '.' ∉ s.hostPrefix.toList) (l : List AddressArg) :
    Numbered s (l.foldl (addTo s) (∅, 1)) := (foldl_numbered s hdot l _ (numbered_empty s)).1

theorem length_hostIps {d : HostMap} (h : HasIps d) : (hostIps d).length = d.keys.length := by
  have hall : (hostIps d).length = d.entries.length := List.filterMap_length_eq_length.mpr
    fun e he => Option.isSome_iff_exists.mpr (h.of_mem he)
  rw [hall, OrderedDict.keys, List.length_map]

/-- There are as many hosts as distinct ips. -/
theorem length_hostsFrom (hdot : '.' ∉ s.hostPrefix.toList) (l : List AddressArg) :
    (hostsFrom s ∅ l).keys.length = (l.map AddressArg.ip).dedup.length := by
  obtain ⟨hnum, hips⟩ := foldl_numbered s hdot l _ (numbered_empty s)
  have hnodup : (hostIps (hostsFrom s ∅ l)).Nodup := hnum.nodup
  have hasIps : HasIps (hostsFrom s ∅ l) := hnum.hasIps
  have hperm : (hostIps (hostsFrom s ∅ l)).Perm ((l.map AddressArg.ip).dedup.map IPv4.exploded) := by
    rw [List.perm_ext_iff_of_nodup hnodup
      ((List.nodup_dedup _).map IPv4.exploded_injective)]
    intro x
    have hx : x ∈ hostIps (hostsFrom s ∅ l) ↔
        x ∈ hostIps (∅ : HostMap) ∨ x ∈ l.map fun a => a.ip.exploded := hips x
    have hnone : x ∉ hostIps (∅ : HostMap) := List.not_mem_nil
    rw [hx, or_iff_right hnone]
    simp
  rw [← length_hostIps hasIps, hperm.length_eq, List.length_map]

/-- A scan of numbered hosts takes them all over and goes on where they end. -/
theorem scanStart_numbered (hdot : '.' ∉ s.hostPrefix.toList)
    (hlast : NoFinalDigit s.tables s.hostPrefix.toList) (p : HostMap × Nat) (h : Numbered s p) :
    scanStart s p.1 = p := by
  have hid : ∀ e ∈ p.1.entries, ∃ k, k ≤ p.1.keys.length ∧ getHostId s.tables e.1 = .ok k := by
    intro e he
    have hm : e.1 ∈ p.1.keys := List.mem_map_of_mem he
    rw [h.keys] at hm
    obtain ⟨k, hk, hname⟩ := List.mem_map.mp hm
    refine ⟨k, ?_, hname ▸ getHostId_number s.tables s k hdot hlast⟩
    have hlt := (List.mem_range'_1.mp hk).2
    omega
  have hscan : scanned s.tables p.1.entries = p.1.entries :=
    scanned_of_ids s.tables _ fun e he => (hid e he).imp fun _ => And.right
  have hhigh : highestId s.tables p.1.entries 0 = p.1.keys.length := by
    apply Nat.le_antisymm
    · refine highestId_le s.tables _ 0 _ (Nat.zero_le _) fun e he id hgot => ?_
      obtain ⟨k, hk, hget⟩ := hid e he
      rw [hget] at hgot
      exact Except.ok.inj hgot ▸ hk
    · by_cases hz : p.1.keys.length = 0
      · omega
      have hm : hostName s p.1.keys.length ∈ p.1.keys := by
        rw [h.keys]
        refine List.mem_map_of_mem (List.mem_range'_1.mpr ?_)
        rw [← h.keys]
        omega
      obtain ⟨e, he, hname⟩ := List.mem_map.mp hm
      refine le_highestId s.tables _ 0 e (hscan.symm ▸ he) _ ?_
      rw [hname]
      exact getHostId_number s.tables s _ hdot hlast
  exact Prod.ext (OrderedDict.ext_entries hscan) (by rw [scanStart, hhigh, h.next])

theorem hostsFrom_append (hdot : '.' ∉ s.hostPrefix.toList)
    (hlast : NoFinalDigit s.tables s.hostPrefix.toList) (A B : List AddressArg) :
    hostsFrom s (hostsFrom s ∅ A) B = hostsFrom s ∅ (A ++ B) := by
  have hstart := scanStart_numbered s hdot hlast _ (hostsFrom_numbered s hdot A)
  rw [hostsFrom_empty, hostsFrom_empty, hostsFrom, hstart, List.foldl_append]

end Numbers

theorem pySlice_zero {α : Type} (l : List α) (k : Int) (hk : 0 ≤ k) :
    pySlice l 0 k = l.take k.toNat := by
  have hneg : ¬ k < 0 := by omega
  rw [pySlice, sliceIndex, sliceIndex, if_neg hneg, if_neg (by decide), ← List.take_eq_take_min]
  simp

theorem pySlice_add {α : Type} (l : List α) (c : Nat) (k : Int) (hk : 0 ≤ k) :
    pySlice l c (c + k) = (l.drop c).take k.toNat := by
  have hstart : sliceIndex l.length c = min c l.length := by
    rw [sliceIndex, if_neg (by omega), Int.toNat_natCast]
  have hstop : sliceIndex l.length (c + k) = min (c + k.toNat) l.length := by
    rw [sliceIndex, if_neg (by omega)]
    omega
  rw [pySlice, hstart, hstop, ← List.take_eq_take_min, List.drop_take]
  by_cases hc : c ≤ l.length
  · rw [Nat.min_eq_left hc, Nat.add_sub_cancel_left]
  · rw [Nat.min_eq_right (by omega), List.drop_length, List.drop_of_length_le (by omega)]
    simp

section Below
variable (s : Settings)

/-- The groups of a deployment below both thresholds. -/
def smallAssignment (hosts : List String) : Assignment where
  all := hosts
  etcd := Assignment.etcdHosts hosts
  controlPlane := controlPlaneHosts s hosts
  kubeNode := hosts
  calicoRr := []

theorem controlPlaneHosts_below (hosts : List String) (hn : hosts.length < s.scaleThreshold)
    (hk : 0 ≤ s.kubeControlHosts) :
    controlPlaneHosts s hosts = hosts.take s.kubeControlHosts.toNat := by
  rw [controlPlaneHosts, if_neg (by omega), pySlice_zero hosts _ hk]

theorem addKeys_survivors_of_initial {hosts l ks : List String} (h : l <+: ks) (hks : ks ⊆ hosts)
    (hnd : ks.Nodup) : addKeys (survivors hosts l) ks = ks := by
  have hself : survivors hosts l = l :=
    List.filter_eq_self.mpr fun x hx => by simp [hks (h.subset hx)]
  rw [hself, addKeys_of_initial h hnd]

/-- Below both thresholds all hosts become nodes. -/
theorem filter_becomesNode_below (hosts etcd cp : List String)
    (hn : hosts.length < s.scaleThreshold) (hm : hosts.length < s.massiveScaleThreshold) :
    hosts.filter (becomesNode s hosts.length etcd cp) = hosts := by
  refine List.filter_eq_self.mpr fun x _ => ?_
  have h1 : ¬ s.scaleThreshold ≤ hosts.length := by omega
  have h2 : ¬ s.massiveScaleThreshold ≤ hosts.length := by omega
  simp [becomesNode, h1, h2]

/-- A run over a longer list of hosts, where each group is a first part of what it becomes. -/
theorem assign_below (hosts : List String) (hnd : hosts.Nodup)
    (hn : hosts.length < s.scaleThreshold) (hm : hosts.length < s.massiveScaleThreshold)
    (v : Assignment) (hall : v.all <+: hosts) (hetcd : v.etcd <+: Assignment.etcdHosts hosts)
    (hcp : v.controlPlane <+: controlPlaneHosts s hosts) (hnode : v.kubeNode <+: hosts)
    (hrr : v.calicoRr = []) : v.assign s hosts = smallAssignment s hosts := by
  have hall' := addKeys_survivors_of_initial hall (List.Subset.refl hosts) hnd
  have hetcd' := addKeys_survivors_of_initial hetcd (Assignment.etcdHosts_subset hosts)
    ((List.take_sublist _ _).nodup hnd)
  have hcp' := addKeys_survivors_of_initial hcp (controlPlaneHosts_subset s hosts) (by
    rw [controlPlaneHosts, if_neg (by omega), pySlice]
    exact ((List.drop_sublist _ _).trans (List.take_sublist _ _)).nodup hnd)
  have hbecomes := filter_becomesNode_below s hosts (Assignment.etcdHosts hosts)
    (controlPlaneHosts s hosts) hn hm
  have hnode' := addKeys_survivors_of_initial hnode (List.Subset.refl hosts) hnd
  rw [Assignment.assign, hall', hetcd', hcp', hbecomes, hnode', hrr, if_neg (by omega)]
  rfl

theorem etcdHosts_initial {l hosts : List String} (h : l <+: hosts) :
    Assignment.etcdHosts l <+: Assignment.etcdHosts hosts := by
  rw [Assignment.etcdHosts, Assignment.etcdHosts, List.prefix_take_iff]
  refine ⟨(List.take_prefix _ _).trans h, ?_⟩
  have hle := h.length_le
  have hcount : etcdHostsCount l.length ≤ etcdHostsCount hosts.length := by
    rw [etcdHostsCount, etcdHostsCount]
    split <;> split <;> omega
  rw [List.length_take]
  omega

/-- Two runs, the second over hosts that go on from those of the first. -/
theorem assign_assign_below {l hosts : List String} (h : l <+: hosts) (hnd : hosts.Nodup)
    (hn : hosts.length < s.scaleThreshold) (hm : hosts.length < s.massiveScaleThreshold)
    (hk : 0 ≤ s.kubeControlHosts) :
    (Assignment.empty.assign s l).assign s hosts = Assignment.empty.assign s hosts := by
  have hle := h.length_le
  have hempty : ∀ ks : List String, [] <+: ks := fun ks => List.nil_prefix
  have hl : Assignment.empty.assign s l = smallAssignment s l :=
    assign_below s l (h.sublist.nodup hnd) (by omega) (by omega) _ (hempty _) (hempty _) (hempty _)
      (hempty _) rfl
  have hfirst : Assignment.empty.assign s hosts = smallAssignment s hosts :=
    assign_below s hosts hnd hn hm _ (hempty _) (hempty _) (hempty _) (hempty _) rfl
  rw [hl, hfirst]
  refine assign_below s hosts hnd hn hm _ h (etcdHosts_initial h) ?_ h rfl
  have hcp : controlPlaneHosts s l = l.take s.kubeControlHosts.toNat :=
    controlPlaneHosts_below s l (by omega) hk
  have hcp' := controlPlaneHosts_below s hosts hn hk
  rw [smallAssignment, hcp, hcp']
  exact h.take _

end Below

section Steps
variable (s : Settings)

theorem allHostsAfter_of_initial {d hosts : HostMap} (h : d.entries <+: hosts.entries) :
    allHostsAfter hosts d = hosts := by
  have hd : d.filterKeys (kept hosts.keys) = d := by
    apply OrderedDict.filterKeys_eq_self
    exact fun k hk => kept_of_mem ((h.map Prod.fst).subset hk)
  rw [allHostsAfter, hd]
  exact d.setAll_of_initial hosts h

theorem startOf_none_assignment : (startOf none).assignment = Assignment.empty := by
  have hm : ∀ g ∈ ["etcd", "kube_control_plane", "kube_node", "calico_rr"],
      (startOf none).members g = [] := by decide
  rw [AllGroup.assignment, hm _ (by decide), hm _ (by decide), hm _ (by decide), hm _ (by decide)]
  rfl

theorem run_fromEmpty (hs : s.useRealHostname = false) (l : List AddressArg) (hl : l ≠ []) :
    ∃ a, run s none (addressArgs l hl) = .ok (some a) ∧
      a.hosts = .mapping (hostsFrom s ∅ l) ∧ Assigned s (hostsFrom s ∅ l) (startOf none) a := by
  obtain ⟨a, hrun, ha⟩ := run_addressArgs s hs none startOf_none_wellShaped ∅ rfl
    (fun k v h => by simp at h) l hl
  refine ⟨a, hrun, ?_, ha⟩
  rw [ha.all ∅ rfl, allHostsAfter_of_initial List.nil_prefix]

/-- Building in two steps is building at once, below both thresholds. -/
theorem run_append (hs : s.useRealHostname = false) (hdot : '.' ∉ s.hostPrefix.toList)
    (hlast : NoFinalDigit s.tables s.hostPrefix.toList) (hk : 0 ≤ s.kubeControlHosts)
    (A B : List AddressArg) (hA : A ≠ []) (hB : B ≠ [])
    (hn : ((A ++ B).map AddressArg.ip).dedup.length < s.scaleThreshold)
    (hm : ((A ++ B).map AddressArg.ip).dedup.length < s.massiveScaleThreshold) :
    ∃ o1 o2 o3, run s none (addressArgs A hA) = .ok o1 ∧ run s o1 (addressArgs B hB) = .ok o2 ∧
      run s none (addressArgs (A ++ B) (List.append_ne_nil_of_left_ne_nil hA B)) = .ok o3 ∧
      (startOf o2).hosts = (startOf o3).hosts ∧
      ∀ g, (startOf o2).members g = (startOf o3).members g := by
  obtain ⟨a1, hrun1, hhosts1, h1⟩ := run_fromEmpty s hs A hA
  obtain ⟨a3, hrun3, hhosts3, h3⟩ :=
    run_fromEmpty s hs (A ++ B) (List.append_ne_nil_of_left_ne_nil hA B)
  have hnumA := hostsFrom_numbered s hdot A
  obtain ⟨a2, hrun2, h2⟩ := run_addressArgs s hs (some a1) h1.shaped _ hhosts1 hnumA.hasIps B hB
  rw [hostsFrom_append s hdot hlast A B] at h2
  have hgoes : (hostsFrom s ∅ A).entries <+: (hostsFrom s ∅ (A ++ B)).entries := by
    rw [hostsFrom_empty, hostsFrom_empty, List.foldl_append]
    exact (foldl_addTo_grows s B _ (hnumA.fresh s)).1.entries
  rw [← length_hostsFrom s hdot] at hn hm
  refine ⟨some a1, some a2, some a3, hrun1, hrun2, hrun3, ?_, h2.members_eq h3 ?_ fun g hg hne => ?_⟩
  · have hall := h2.all _ hhosts1
    rw [allHostsAfter_of_initial hgoes] at hall
    exact hall.trans hhosts3.symm
  · have hassign : (startOf (some a1)).assignment = _ := h1.assignment
    rw [hassign, startOf_none_assignment]
    exact assign_assign_below s (hgoes.map Prod.fst) (hostsFrom s ∅ (A ++ B)).keys_nodup hn hm hk
  · have hnone : (startOf none).members g = [] := initial_members g
    have hg1 : (startOf (some a1)).members g = _ := h1.other g hg hne
    rw [hg1, hnone]
    rfl

end Steps

def nodeOne : AddressArg := ⟨.ofOctets 10 0 0 1, none⟩

def nodeTwo : AddressArg := ⟨.ofOctets 10 0 0 2, some (.ofOctets 192 168 0 2)⟩

/-- The second step names the first address again. -/
theorem two_steps_append :
    ∃ o1 o2 o3, run {} none (addressArgs [nodeOne] (by decide)) = .ok o1 ∧
      run {} o1 (addressArgs [nodeTwo, nodeOne] (by decide)) = .ok o2 ∧
      run {} none (addressArgs [nodeOne, nodeTwo, nodeOne] (by decide)) = .ok o3 ∧
      (startOf o2).hosts = (startOf o3).hosts ∧
      ∀ g, (startOf o2).members g = (startOf o3).members g := by
  have hlast : NoFinalDigit ({} : Settings).tables ({} : Settings).hostPrefix.toList := by
    intro c hc
    have hce : some 'e' = some c := hc
    obtain rfl := Option.some.inj hce
    rfl
  exact run_append {} rfl (by decide) hlast (by decide) [nodeOne] [nodeTwo, nodeOne] (by decide)
    (by decide) (by decide) (by decide)

section Filled
variable (s : Settings)

theorem filter_not_mem_take {l : List String} (hnd : l.Nodup) (n : Nat) :
    (l.filter fun x => decide (x ∉ l.take n)) = l.drop n := by
  have htake : ((l.take n).filter fun x => decide (x ∉ l.take n)) = [] :=
    List.filter_eq_nil_iff.mpr fun x hx => by simp [hx]
  have hdrop : ((l.drop n).filter fun x => decide (x ∉ l.take n)) = l.drop n := by
    refine List.filter_eq_self.mpr fun x hx => ?_
    have hno : x ∉ l.take n := fun hm => List.disjoint_take_drop hnd (Nat.le_refl n) hm hx
    simpa using hno
  have hsplit : l = l.take n ++ l.drop n := (List.take_append_drop n l).symm
  calc (l.filter fun x => decide (x ∉ l.take n))
      = ((l.take n ++ l.drop n).filter fun x => decide (x ∉ l.take n)) := by rw [← hsplit]
    _ = l.drop n := by rw [List.filter_append, htake, hdrop, List.nil_append]

theorem controlPlaneHosts_nodup {hosts : List String} (hnd : hosts.Nodup) :
    (controlPlaneHosts s hosts).Nodup := by
  rw [controlPlaneHosts]
  split <;> exact ((List.drop_sublist _ _).trans (List.take_sublist _ _)).nodup hnd

theorem assign_empty (hosts : List String) (hnd : hosts.Nodup) :
    (Assignment.empty.assign s hosts).etcd = Assignment.etcdHosts hosts ∧
      (Assignment.empty.assign s hosts).controlPlane = controlPlaneHosts s hosts ∧
      (Assignment.empty.assign s hosts).kubeNode = hosts.filter (becomesNode s hosts.length
        (Assignment.etcdHosts hosts) (controlPlaneHosts s hosts)) := by
  have hfill : ∀ ks : List String, ks ⊆ hosts → ks.Nodup → addKeys (survivors hosts []) ks = ks :=
    fun ks hks h => addKeys_survivors_of_initial List.nil_prefix hks h
  have hall := hfill hosts (List.Subset.refl hosts) hnd
  have hetcd := hfill _ (Assignment.etcdHosts_subset hosts) ((List.take_sublist _ _).nodup hnd)
  have hcp := hfill _ (controlPlaneHosts_subset s hosts) (controlPlaneHosts_nodup s hnd)
  refine ⟨hetcd, hcp, ?_⟩
  simp only [Assignment.assign, Assignment.empty, hall, hetcd, hcp]
  exact hfill _ (List.filter_subset_self hosts) (hnd.filter _)

theorem drop_ne_nil_iff {l : List String} {n : Nat} : l.drop n ≠ [] ↔ n < l.length := by
  rw [Ne, List.drop_eq_nil_iff, Nat.not_le]

/-- Who is left for kube_node: all below the threshold, then all but etcd, then all but etcd
and the control plane. -/
theorem kubeNode_fromEmpty (hosts : List String) (hnd : hosts.Nodup)
    (hk : 0 ≤ s.kubeControlHosts) (hle : s.scaleThreshold ≤ s.massiveScaleThreshold) :
    hosts.filter (becomesNode s hosts.length (Assignment.etcdHosts hosts)
        (controlPlaneHosts s hosts)) =
      if hosts.length < s.scaleThreshold then hosts
      else if hosts.length < s.massiveScaleThreshold then
        hosts.drop (etcdHostsCount hosts.length)
      else hosts.drop (etcdHostsCount hosts.length + s.kubeControlHosts.toNat) := by
  split
  · rename_i hn
    exact filter_becomesNode_below s hosts _ _ hn (by omega)
  · rename_i hn
    have hscale : s.scaleThreshold ≤ hosts.length := by omega
    have hcp : controlPlaneHosts s hosts =
        (hosts.drop (etcdHostsCount hosts.length)).take s.kubeControlHosts.toNat := by
      rw [controlPlaneHosts, if_pos hscale, pySlice_add _ _ _ hk]
    have hetcd := filter_not_mem_take hnd (etcdHostsCount hosts.length)
    split
    · rename_i hm
      rw [← hetcd]
      refine List.filter_congr fun x _ => ?_
      have h2 : ¬ s.massiveScaleThreshold ≤ hosts.length := by omega
      rw [Bool.eq_iff_iff, becomesNode_iff]
      simp [hscale, h2, Assignment.etcdHosts]
    · rename_i hm
      have hmassive : s.massiveScaleThreshold ≤ hosts.length := by omega
      have hrest := filter_not_mem_take ((List.drop_sublist _ _).nodup hnd)
        (l := hosts.drop (etcdHostsCount hosts.length)) s.kubeControlHosts.toNat
      rw [← List.drop_drop, ← hrest, ← hcp, ← hetcd, List.filter_filter]
      refine List.filter_congr fun x _ => ?_
      rw [Bool.eq_iff_iff, becomesNode_iff]
      simp [hscale, hmassive, Assignment.etcdHosts, and_comm]

theorem etcdHostsCount_pos (n : Nat) : 0 < etcdHostsCount n := by
  rw [etcdHostsCount]
  split <;> decide

theorem etcdHosts_ne_nil {hosts : List String} (h : hosts ≠ []) : Assignment.etcdHosts hosts ≠ [] := by
  have hpos := List.length_pos_iff.mpr h
  have hcount := etcdHostsCount_pos hosts.length
  rw [Assignment.etcdHosts, Ne, List.take_eq_nil_iff, not_or, ← List.length_eq_zero_iff]
  omega

theorem controlPlaneHosts_ne_nil_iff {hosts : List String} (h : hosts ≠ [])
    (hk : 0 < s.kubeControlHosts) : controlPlaneHosts s hosts ≠ [] ↔
      hosts.length < s.scaleThreshold ∨ etcdHostsCount hosts.length < hosts.length := by
  have hpos := List.length_pos_iff.mpr h
  by_cases hn : hosts.length < s.scaleThreshold
  · rw [controlPlaneHosts_below s hosts hn (by omega), Ne, List.take_eq_nil_iff, not_or,
      ← List.length_eq_zero_iff]
    omega
  · rw [controlPlaneHosts, if_pos (by omega), pySlice_add _ _ _ (by omega), Ne,
      List.take_eq_nil_iff, not_or, List.drop_eq_nil_iff]
    omega

/-- When the roles of a first build are all filled. -/
theorem assign_empty_filled_iff (hosts : List String) (hnd : hosts.Nodup) (h : hosts ≠ [])
    (hk : 0 < s.kubeControlHosts) (hle : s.scaleThreshold ≤ s.massiveScaleThreshold) :
    ((Assignment.empty.assign s hosts).etcd ≠ [] ∧
        (Assignment.empty.assign s hosts).controlPlane ≠ [] ∧
        (Assignment.empty.assign s hosts).kubeNode ≠ []) ↔
      hosts.length < s.scaleThreshold ∨ (etcdHostsCount hosts.length < hosts.length ∧
        (hosts.length < s.massiveScaleThreshold ∨
          etcdHostsCount hosts.length + s.kubeControlHosts < hosts.length)) := by
  obtain ⟨hetcd, hcp, hnode⟩ := assign_empty s hosts hnd
  have hpos := List.length_pos_iff.mpr h
  have hnodes : (Assignment.empty.assign s hosts).kubeNode ≠ [] ↔
      hosts.length < s.scaleThreshold ∨
      (hosts.length < s.massiveScaleThreshold ∧ etcdHostsCount hosts.length < hosts.length) ∨
      etcdHostsCount hosts.length + s.kubeControlHosts < hosts.length := by
    rw [hnode, kubeNode_fromEmpty s hosts hnd (by omega) hle]
    split
    · rw [Ne, ← List.length_eq_zero_iff]
      omega
    · split <;> rw [drop_ne_nil_iff] <;> omega
  rw [hnodes, hcp, controlPlaneHosts_ne_nil_iff s h hk, hetcd]
  constructor
  · intro hfilled
    obtain ⟨-, hc, hn⟩ := hfilled
    omega
  · intro hcond
    refine ⟨etcdHosts_ne_nil h, ?_, ?_⟩ <;> omega

/-- Addresses without an access ip. -/
def ipArgs (l : List IPv4) : List AddressArg := l.map fun ip => ⟨ip, none⟩

theorem ipArgs_ne_nil {l : List IPv4} (h : l ≠ []) : ipArgs l ≠ [] := by
  rwa [ipArgs, Ne, List.map_eq_nil_iff]

/-- A build of distinct addresses leaves no role empty exactly when there are fewer hosts than
the threshold says, or some are left behind those of etcd and, in a massive deployment, behind
those of the control plane too. -/
theorem roles_filled_iff (hs : s.useRealHostname = false) (hdot : '.' ∉ s.hostPrefix.toList)
    (hk : 0 < s.kubeControlHosts) (hle : s.scaleThreshold ≤ s.massiveScaleThreshold)
    (l : List IPv4) (hnd : l.Nodup) (hl : l ≠ []) :
    ∃ a, run s none (addressArgs (ipArgs l) (ipArgs_ne_nil hl)) = .ok (some a) ∧
      ((a.members "etcd" ≠ [] ∧ a.members "kube_control_plane" ≠ [] ∧ a.members "kube_node" ≠ []) ↔
        l.length < s.scaleThreshold ∨ (etcdHostsCount l.length < l.length ∧
          (l.length < s.massiveScaleThreshold ∨
            etcdHostsCount l.length + s.kubeControlHosts < l.length))) := by
  obtain ⟨a, hrun, -, ha⟩ := run_fromEmpty s hs (ipArgs l) (ipArgs_ne_nil hl)
  refine ⟨a, hrun, ?_⟩
  have hips : (ipArgs l).map AddressArg.ip = l := by simp [ipArgs, Function.comp_def]
  have hlen := length_hostsFrom s hdot (ipArgs l)
  rw [hips, hnd.dedup] at hlen
  have hne : (hostsFrom s ∅ (ipArgs l)).keys ≠ [] := by
    rwa [← List.length_pos_iff, hlen, List.length_pos_iff]
  have hfilled := assign_empty_filled_iff s (hostsFrom s ∅ (ipArgs l)).keys
    (hostsFrom s ∅ (ipArgs l)).keys_nodup hne hk hle
  rw [hlen, ← startOf_none_assignment, ← ha.assignment] at hfilled
  exact hfilled

def threeIps : List IPv4 := [.ofOctets 10 0 0 1, .ofOctets 10 0 0 2, .ofOctets 10 0 0 3]

theorem three_roles_filled_iff :
    ∃ a, run { scaleThreshold := 3 } none
        (addressArgs (ipArgs threeIps) (ipArgs_ne_nil (by decide))) = .ok (some a) ∧
      ((a.members "etcd" ≠ [] ∧ a.members "kube_control_plane" ≠ [] ∧ a.members "kube_node" ≠ []) ↔
        ((threeIps.length : Nat) : Int) < 3 ∨ (etcdHostsCount threeIps.length < threeIps.length ∧
          (((threeIps.length : Nat) : Int) < 200 ∨
            ((etcdHostsCount threeIps.length : Nat) : Int) + 2 < (threeIps.length : Nat)))) :=
  roles_filled_iff { scaleThreshold := 3 } rfl (by decide) (by decide) (by decide) threeIps
    (by decide) (by decide)

/-- Three hosts at the threshold are all taken by etcd. -/
theorem three_hosts_no_control_plane : ¬ ∀ s : Settings, s.useRealHostname = false →
    '.' ∉ s.hostPrefix.toList → 0 < s.kubeControlHosts → 0 < s.scaleThreshold →
    s.scaleThreshold ≤ s.massiveScaleThreshold → ∀ (l : List IPv4) (hl : l ≠ []), l.Nodup →
      ∃ a, run s none (addressArgs (ipArgs l) (ipArgs_ne_nil hl)) = .ok (some a) ∧
        a.members "etcd" ≠ [] ∧ a.members "kube_control_plane" ≠ [] ∧
        a.members "kube_node" ≠ [] := by
  intro h
  obtain ⟨a, hrun, -, hcp, -⟩ := h { scaleThreshold := 3 } rfl (by decide) (by decide) (by decide)
    (by decide) threeIps (by decide) (by decide)
  have hnone : (run { scaleThreshold := 3 } none
      (addressArgs (ipArgs threeIps) (ipArgs_ne_nil (by decide)))).toOption.map
        (fun o => (startOf o).members "kube_control_plane") = some [] := by decide +kernel
  rw [hrun] at hnone
  exact hcp (Option.some.inj hnone)

end Filled

end Kubespray.Inventory

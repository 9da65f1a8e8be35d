import Kubespray.Inventory.Addresses
import Kubespray.Inventory.Purge

/-! Runs over the same addresses twice, and over addresses in two parts. -/
namespace Kubespray.Inventory

section Fold
variable (s : Settings)

/-- The names from the next number on are free. -/
def Fresh (p : HostMap × Nat) : Prop := ∀ k, p.2 ≤ k → hostName s k ∉ p.1.keys

/-- What makes an address argument be skipped. -/
def Known (d : HostMap) (a : AddressArg) : Prop := a.text ∈ d.keys ∨ a.ip.exploded ∈ hostIps d

theorem Known.mono {d d' : HostMap} {a : AddressArg} (hp : d.entries <+: d'.entries)
    (h : Known d a) : Known d' a :=
  h.imp (fun hk => (hp.map Prod.fst).subset hk) fun hi => (hp.filterMap _).subset hi

theorem addTo_of_known (p : HostMap × Nat) (a : AddressArg) (h : Known p.1 a) : addTo s p a = p :=
  if_pos h

theorem addTo_of_not_known (p : HostMap × Nat) (a : AddressArg) (hf : Fresh s p)
    (h : ¬ Known p.1 a) : (addTo s p a).2 = p.2 + 1 ∧ (addTo s p a).1.entries =
      p.1.entries ++ [(hostName s p.2, hostOpts a.ip.exploded a.access)] := by
  have hadd : addTo s p a =
      (p.1.setItem (hostName s p.2) (hostOpts a.ip.exploded a.access), p.2 + 1) := if_neg h
  rw [hadd]
  exact ⟨rfl, OrderedDict.entries_setItem_of_not_mem _ _ _ (hf p.2 (Nat.le_refl _))⟩

/-- What one argument keeps: the entries so far stay in front, new names are of the prefix, and
the argument is known from then on. -/
structure Grows (p q : HostMap × Nat) : Prop where
  entries : p.1.entries <+: q.1.entries
  fresh : Fresh s q
  names : ∀ x ∈ q.1.keys, x ∈ p.1.keys ∨ ∃ k, x = hostName s k

theorem addTo_grows (p : HostMap × Nat) (a : AddressArg) (hf : Fresh s p) :
    Grows s p (addTo s p a) ∧ Known (addTo s p a).1 a := by
  by_cases h : Known p.1 a
  · rw [addTo_of_known s p a h]
    exact ⟨⟨List.prefix_refl _, hf, fun _ => .inl⟩, h⟩
  · obtain ⟨hnext, hent⟩ := addTo_of_not_known s p a hf h
    have hkeys : (addTo s p a).1.keys = p.1.keys ++ [hostName s p.2] := by
      rw [OrderedDict.keys, hent, List.map_append]
      rfl
    refine ⟨⟨hent ▸ List.prefix_append _ _, fun k hk hm => ?_, fun x hx => ?_⟩, .inr ?_⟩
    · rw [hnext] at hk
      rw [hkeys, List.mem_append, List.mem_singleton] at hm
      cases hm with
      | inl hm => exact hf k (by omega) hm
      | inr hm =>
        have hkn := hostName_injective s hm
        omega
    · rw [hkeys, List.mem_append, List.mem_singleton] at hx
      exact hx.imp id fun he => ⟨p.2, he⟩
    · rw [hostIps, hent, List.filterMap_append]
      exact List.mem_append_right _ (by simp [optIp_hostOpts])

theorem foldl_addTo_grows (l : List AddressArg) (p : HostMap × Nat) (hf : Fresh s p) :
    Grows s p (l.foldl (addTo s) p) ∧ ∀ a ∈ l, Known (l.foldl (addTo s) p).1 a := by
  induction l generalizing p with
  | nil => exact ⟨⟨List.prefix_refl _, hf, fun _ => .inl⟩, by simp⟩
  | cons a l ih =>
    obtain ⟨hone, hknown⟩ := addTo_grows s p a hf
    obtain ⟨hrest, hall⟩ := ih (addTo s p a) hone.fresh
    rw [List.foldl_cons]
    refine ⟨⟨hone.entries.trans hrest.entries, hrest.fresh, fun x hx => ?_⟩, fun b hb => ?_⟩
    · cases hrest.names x hx with
      | inl hx => exact hone.names x hx
      | inr hx => exact .inr hx
    · rcases List.mem_cons.mp hb with rfl | hb
      · exact hknown.mono hrest.entries
      · exact hall b hb

theorem foldl_addTo_of_known (l : List AddressArg) (p : HostMap × Nat)
    (h : ∀ a ∈ l, Known p.1 a) : l.foldl (addTo s) p = p := by
  induction l with
  | nil => rfl
  | cons a l ih =>
    rw [List.foldl_cons, addTo_of_known s p a (h a (by simp))]
    exact ih fun b hb => h b (List.mem_cons_of_mem a hb)

theorem scanStart_fresh (hdot : '.' ∉ s.hostPrefix.toList) (d : HostMap) :
    Fresh s (scanStart s d) := by
  intro k hk
  exact hostName_not_mem_scanned s.tables s hdot d k hk

end Fold

section Twice
variable (s : Settings)

theorem kept_of_mem {hosts : List String} {x : String} (h : x ∈ hosts) : kept hosts x = true := by
  simp [kept, h]

theorem allHostsAfter_idem (hosts d : HostMap) :
    allHostsAfter hosts (allHostsAfter hosts d) = allHostsAfter hosts d := by
  have hkept : (allHostsAfter hosts d).filterKeys (kept hosts.keys) = allHostsAfter hosts d := by
    apply OrderedDict.filterKeys_eq_self
    intro k hk
    rw [allHostsAfter, OrderedDict.keys_setAll, mem_addKeys, OrderedDict.keys_filterKeys] at hk
    cases hk with
    | inl hk => exact (List.mem_filter.mp hk).2
    | inr hk => exact kept_of_mem hk
  rw [allHostsAfter, hkept]
  apply OrderedDict.setAll_of_lookup
  intro e he
  rw [allHostsAfter, OrderedDict.lookup_setAll_entries,
    (hosts.lookup_eq_some_iff e.1 e.2).mpr he, Option.some_or]

theorem prefix_allHostsAfter (hosts d : HostMap) (p : List (String × Value))
    (hd : p <+: d.entries) (hh : p <+: hosts.entries) :
    p <+: (allHostsAfter hosts d).entries := by
  apply OrderedDict.prefix_setAll
  · obtain ⟨r, hr⟩ := hd
    have hself : p.filter (fun e => kept hosts.keys e.1) = p :=
      List.filter_eq_self.mpr fun e he =>
        kept_of_mem (List.mem_map_of_mem (hh.subset he))
    have hent : (d.filterKeys (kept hosts.keys)).entries =
        p ++ r.filter fun e => kept hosts.keys e.1 := by
      have hfilter : (d.filterKeys (kept hosts.keys)).entries =
          d.entries.filter fun e => kept hosts.keys e.1 := rfl
      rw [hfilter, ← hr, List.filter_append, hself]
    exact hent ▸ List.prefix_append _ _
  · intro e he hm
    obtain ⟨x, hx, hkey⟩ := List.mem_map.mp hm
    have hxl := (hosts.lookup_eq_some_iff x.1 x.2).mpr (hh.subset hx)
    have hel := (hosts.lookup_eq_some_iff e.1 e.2).mpr he
    rw [hkey, hel] at hxl
    have hex : x = e := Prod.ext hkey (Option.some.inj hxl).symm
    exact hex ▸ hx

/-- The mapping of build_hostnames is the same when the run is made again. -/
theorem hostsFrom_again (hdot : '.' ∉ s.hostPrefix.toList) (d : HostMap) (l : List AddressArg) :
    hostsFrom s (allHostsAfter (hostsFrom s d l) d) l = hostsFrom s d l := by
  obtain ⟨hgrows, hknown⟩ := foldl_addTo_grows s l (scanStart s d) (scanStart_fresh s hdot d)
  set hosts := hostsFrom s d l with hhosts
  have hpre : scanned s.tables d.entries <+: hosts.entries := hgrows.entries
  rcases scanned_eq_self_or s.tables d.entries with ⟨hself, hids⟩ | hstop
  · -- Every stored name has an id: the first run ends with just these and the new hosts, all
    -- of which are scanned again.
    have hall : allHostsAfter hosts d = hosts := by
      have hd : d.filterKeys (kept hosts.keys) = d := by
        apply OrderedDict.filterKeys_eq_self
        intro k hk
        exact kept_of_mem ((hpre.map Prod.fst).subset (by rw [hself]; exact hk))
      rw [allHostsAfter, hd]
      exact d.setAll_of_initial hosts (hself ▸ hpre)
    have hscan : scannedHosts s.tables hosts = hosts := by
      apply OrderedDict.ext_entries
      apply scanned_of_ids
      intro e he
      rcases hgrows.names e.1 (List.mem_map_of_mem he) with hm | ⟨k, hk⟩
      · obtain ⟨x, hx, hkey⟩ := List.mem_map.mp hm
        exact hkey ▸ hids x ((scanned_initial s.tables d.entries).subset hx)
      · exact ⟨_, hk ▸ getHostId_hostName s.tables s k hdot⟩
    rw [hall, hostsFrom, foldl_addTo_of_known]
    · exact hscan
    · intro a ha
      have h : Known hosts a := hknown a ha
      rwa [scanStart, hscan]
  · -- The scan stops at a name without an id, and comes to the same name again.
    obtain ⟨r, hr⟩ := prefix_allHostsAfter hosts d _ (scanned_initial s.tables d.entries) hpre
    have hstart : scanStart s (allHostsAfter hosts d) = scanStart s d := by
      refine Prod.ext (OrderedDict.ext_entries ?_) (congrArg (· + 1) ?_)
      · exact (congrArg (scanned s.tables) hr).symm.trans (hstop r).1
      · rw [← hr]
        exact (hstop r).2 0
    rw [hostsFrom, hstart, ← hostsFrom, ← hhosts]

end Twice

theorem survivors_addKeys (hosts l ks : List String) (h : ks ⊆ hosts) :
    survivors hosts (addKeys (survivors hosts l) ks) = addKeys (survivors hosts l) ks := by
  refine List.filter_eq_self.mpr fun x hx => ?_
  cases (mem_addKeys _ ks x).mp hx with
  | inl hx => exact (List.mem_filter.mp hx).2
  | inr hx => simp [h hx]

theorem addKeys_again (hosts l ks : List String) (h : ks ⊆ hosts) :
    addKeys (survivors hosts (addKeys (survivors hosts l) ks)) ks =
      addKeys (survivors hosts l) ks := by
  rw [survivors_addKeys hosts l ks h]
  exact addKeys_of_subset _ _ fun x hx => (mem_addKeys _ ks x).mpr (.inr hx)

theorem Assignment.etcdHosts_subset (hosts : List String) : Assignment.etcdHosts hosts ⊆ hosts :=
  List.take_subset _ _

theorem Assignment.assign_assign (s : Settings) (hosts : List String) (v : Assignment) :
    (v.assign s hosts).assign s hosts = v.assign s hosts := by
  have hall := addKeys_again hosts v.all hosts (List.Subset.refl _)
  have hetcd := addKeys_again hosts v.etcd _ (etcdHosts_subset hosts)
  have hcp := addKeys_again hosts v.controlPlane _ (controlPlaneHosts_subset s hosts)
  have hrr := addKeys_again hosts v.calicoRr
    (if s.scaleThreshold ≤ hosts.length then (etcdHosts hosts).filter (· ≠ "hosts") else [])
    (by
      split
      · exact fun x hx => etcdHosts_subset hosts (List.mem_of_mem_filter hx)
      · exact List.nil_subset _)
  have hnode := fun keep : String → Bool => addKeys_again hosts v.kubeNode (hosts.filter keep)
    (List.filter_subset_self hosts)
  simp only [assign, hall, hetcd, hcp, hrr, hnode]

/-- What a run that is left with `hosts` has made of a configuration of the documented shape. -/
structure Assigned (s : Settings) (hosts : HostMap) (a a' : AllGroup) : Prop where
  shaped : a'.WellShaped
  all : ∀ d, a.hosts = .mapping d → a'.hosts = .mapping (allHostsAfter hosts d)
  cluster : a'.members "k8s_cluster" = []
  assignment : a'.assignment = a.assignment.assign s hosts.keys
  other : ∀ g ∉ filledGroups, g ≠ "k8s_cluster" →
    a'.members g = survivors hosts.keys (a.members g)

theorem assigned_spec (s : Settings) (hosts : HostMap) (a : AllGroup) (hw : a.WellShaped) :
    ∃ a', assignHosts s hosts a = .ok a' ∧ Assigned s hosts a a' := by
  obtain ⟨a', ha, hw', hk, hassign⟩ := assignHosts_spec s hosts a hw
  obtain ⟨d, hd⟩ := hw.hosts
  obtain ⟨hall, hother, -⟩ := assignHosts_effect s hosts a a' d hd hw.mappings ha
  refine ⟨a', ha, hw', fun d' hd' => ?_, ?_, hassign, fun g hg hne => ?_⟩
  · obtain rfl := HostsKey.mapping.inj (hd.symm.trans hd')
    exact hall
  · simp [AllGroup.members, AllGroup.table, hk]
  · rw [AllGroup.members, AllGroup.members, hother g hg hne]
    cases a.table g <;> rfl

/-- Two runs leave the same members where the rule gives the same and the groups that are not
filled were left with the same. -/
theorem Assigned.members_eq {s : Settings} {hosts hosts' : HostMap} {a a' b b' : AllGroup}
    (h : Assigned s hosts a a') (h' : Assigned s hosts' b b')
    (hassign : a.assignment.assign s hosts.keys = b.assignment.assign s hosts'.keys)
    (hother : ∀ g ∉ filledGroups, g ≠ "k8s_cluster" →
      survivors hosts.keys (a.members g) = survivors hosts'.keys (b.members g)) (g : String) :
    a'.members g = b'.members g := by
  have hall : a'.assignment = b'.assignment := by rw [h.assignment, h'.assignment, hassign]
  by_cases hk : g = "k8s_cluster"
  · rw [hk, h.cluster, h'.cluster]
  by_cases hg : g ∈ filledGroups
  · simp only [filledGroups, List.mem_cons, List.not_mem_nil, or_false] at hg
    rcases hg with rfl | rfl | rfl | rfl
    · exact congrArg Assignment.etcd hall
    · exact congrArg Assignment.controlPlane hall
    · exact congrArg Assignment.kubeNode hall
    · exact congrArg Assignment.calicoRr hall
  · rw [h.other g hg hk, h'.other g hg hk, hother g hg hk]

/-- A run over addresses. Without arguments the builder has made sure of its groups before it
shows its help. -/
def runTexts (s : Settings) (o : Option AllGroup) (l : List AddressArg) :
    Except PyError (Option AllGroup) :=
  if h : l = [] then do
    let c ← (YamlConfig.dict o).ensureRequiredGroups roles
    let a ← c.getAll
    .ok (some a)
  else run s o (addressArgs l h)

theorem runTexts_nil (s : Settings) (o : Option AllGroup) (hw : (startOf o).WellShaped) :
    runTexts s o [] = .ok (some (startOf o)) := by
  rw [runTexts, dif_pos rfl, ensureRequiredGroups_dict o hw]
  rfl

theorem run_addressArgs (s : Settings) (hs : s.useRealHostname = false) (o : Option AllGroup)
    (hw : (startOf o).WellShaped) (d : HostMap) (hd : (startOf o).hosts = .mapping d)
    (hips : HasIps d) (l : List AddressArg) (hl : l ≠ []) :
    ∃ a', run s o (addressArgs l hl) = .ok (some a') ∧
      Assigned s (hostsFrom s d l) (startOf o) a' := by
  obtain ⟨a', ha, hassigned⟩ := assigned_spec s (hostsFrom s d l) (startOf o) hw
  refine ⟨a', ?_, hassigned⟩
  have hnew : newHosts s (startOf o) (addressArgs l hl).args = .ok (hostsFrom s d l) :=
    newHosts_texts s hs (startOf o) d hd hips l
  rw [run, build, ensureRequiredGroups_dict o hw, Except.bind_ok, YamlConfig.getAll,
    Except.bind_ok, hnew, Except.bind_ok, ha]
  rfl

/-- What holds of every configuration that runs from the empty one lead to. -/
structure Stored (o : Option AllGroup) : Prop where
  shaped : (startOf o).WellShaped
  hosts : ∃ d, (startOf o).hosts = .mapping d ∧ HasIps d

theorem stored_none : Stored none where
  shaped := startOf_none_wellShaped
  hosts := ⟨∅, rfl, fun k v h => by simp at h⟩

theorem Stored.run {s : Settings} {o o' : Option AllGroup} {i : HostArgs} (h : Stored o)
    (hrun : run s o i = .ok o') : Stored o' := by
  obtain ⟨d, hd, hips⟩ := h.hosts
  rw [Inventory.run, build, ensureRequiredGroups_dict o h.shaped, Except.bind_ok,
    YamlConfig.getAll, Except.bind_ok] at hrun
  cases hnew : newHosts s (startOf o) i.args with
  | error e =>
    rw [hnew] at hrun
    cases hrun
  | ok hosts =>
    obtain ⟨a', ha, hassigned⟩ := assigned_spec s hosts (startOf o) h.shaped
    rw [hnew, Except.bind_ok, ha] at hrun
    obtain rfl : some a' = o' := Except.ok.inj hrun
    exact ⟨hassigned.shaped, _, hassigned.all d hd,
      (hips.filterKeys _).setAll (newHosts_hasIps s _ d hosts hd hips _ hnew)⟩

/-- A run over addresses that is made again changes nothing, from any configuration that runs
of whatever settings and arguments lead to. -/
theorem runTexts_twice (s : Settings) (hs : s.useRealHostname = false)
    (hdot : '.' ∉ s.hostPrefix.toList) (o : Option AllGroup)
    (ho : Runs.Reachable (fun o (p : Settings × HostArgs) => run p.1 o p.2) none o)
    (l : List AddressArg) :
    ∃ o1 o2, runTexts s o l = .ok o1 ∧ runTexts s o1 l = .ok o2 ∧
      (startOf o2).hosts = (startOf o1).hosts ∧
      ∀ g, (startOf o2).members g = (startOf o1).members g := by
  have hstored : Stored o := ho.invariant (fun _ _ _ h hrun => h.run hrun) stored_none
  by_cases hl : l = []
  · subst hl
    have h1 := runTexts_nil s o hstored.shaped
    exact ⟨_, _, h1, runTexts_nil s (some (startOf o)) hstored.shaped, rfl, fun _ => rfl⟩
  · obtain ⟨d, hd, hips⟩ := hstored.hosts
    obtain ⟨a1, hrun1, h1⟩ := run_addressArgs s hs o hstored.shaped d hd hips l hl
    have hd1 := h1.all d hd
    have hstored1 : Stored (some a1) := hstored.run hrun1
    obtain ⟨d1, hd1', hips1⟩ := hstored1.hosts
    obtain rfl : allHostsAfter (hostsFrom s d l) d = d1 := HostsKey.mapping.inj (hd1.symm.trans hd1')
    obtain ⟨a2, hrun2, h2⟩ := run_addressArgs s hs (some a1) h1.shaped _ hd1 hips1 l hl
    rw [hostsFrom_again s hdot d l] at h2
    refine ⟨some a1, some a2, ?_, ?_, ?_, h2.members_eq h1 ?_ fun g hg hne => ?_⟩
    · rw [runTexts, dif_neg hl, hrun1]
    · rw [runTexts, dif_neg hl, hrun2]
    · have hall := h2.all _ hd1
      rw [allHostsAfter_idem] at hall
      exact hall.trans hd1.symm
    · have hassign : (startOf (some a1)).assignment = _ := h1.assignment
      rw [hassign, Assignment.assign_assign]
    · have hg1 : (startOf (some a1)).members g = _ := h1.other g hg hne
      rw [hg1]
      exact List.filter_eq_self.mpr fun x hx => (List.mem_filter.mp hx).2

def namedHost : HostArgs := ⟨["master,10.0.0.9"], by decide, by decide⟩

/-- The stored name has no number. -/
theorem namedHost_runTexts_twice : ∃ o, run {} none namedHost = .ok o ∧
    ∃ o1 o2, runTexts {} o [⟨.ofOctets 10 0 0 1, none⟩] = .ok o1 ∧
      runTexts {} o1 [⟨.ofOctets 10 0 0 1, none⟩] = .ok o2 ∧
      (startOf o2).hosts = (startOf o1).hosts ∧
      ∀ g, (startOf o2).members g = (startOf o1).members g := by
  have hok : (run {} none namedHost).isOk = true := by decide +kernel
  cases ho : run {} none namedHost with
  | error e => simp [ho, Except.isOk, Except.toBool] at hok
  | ok o =>
    have hreach : Runs.Reachable (fun o (p : Settings × HostArgs) => run p.1 o p.2) none o :=
      Runs.Reachable.step (i := ({}, namedHost)) .start ho
    exact ⟨o, rfl, runTexts_twice {} rfl (by decide) o hreach _⟩

end Kubespray.Inventory

import Kubespray.Inventory.Run

/-! What a completed run of the inventory builder leaves in all.hosts and in the groups,
for any groups below all.children that have their hosts in a mapping. -/
namespace Kubespray.Inventory

namespace AllGroup

/-- Only groups among `gs` have changed, and only by hosts of `hs` that came in. -/
structure Touches (gs hs : List String) (a a' : AllGroup) : Prop where
  hosts : a'.hosts = a.hosts
  other : ∀ x ∉ gs, a'.children.lookup x = a.children.lookup x
  members : ∀ x h, h ∈ a'.members x → h ∈ hs ∨ h ∈ a.members x

theorem Touches.refl (gs hs : List String) (a : AllGroup) : Touches gs hs a a where
  hosts := rfl
  other _ _ := rfl
  members _ _ h := .inr h

theorem Touches.trans {gs hs : List String} {a b c : AllGroup} (h : Touches gs hs a b)
    (h' : Touches gs hs b c) : Touches gs hs a c where
  hosts := h'.hosts.trans h.hosts
  other x hx := (h'.other x hx).trans (h.other x hx)
  members x y hy := (h'.members x y hy).elim .inl (h.members x y)

theorem mem_members_setGroup (a : AllGroup) (g x h : String) (d : HostMap)
    (c : Option (List String)) (hh : h ∈ (a.setGroup g ⟨.mapping d, c⟩).members x) :
    (x = g ∧ h ∈ d.keys) ∨ h ∈ a.members x := by
  rw [members, table_setGroup] at hh
  by_cases hx : x = g
  · rw [if_pos hx] at hh
    exact .inl ⟨hx, hh⟩
  · rw [if_neg hx, ← members] at hh
    exact .inr hh

theorem members_eq_keys {a : AllGroup} {g : String} {d : HostMap} {c : Option (List String)}
    (h : a.children.lookup g = some ⟨.mapping d, c⟩) : a.members g = d.keys := by
  rw [members, (a.table_eq_some_iff g (d.keys, c)).mpr ⟨d, h, rfl⟩]
  rfl

theorem getGroup_eq_ok {a : AllGroup} {g : String} {G : Group} (h : a.getGroup g = .ok G) :
    a.children.lookup g = some G := by
  rw [getGroup] at h
  cases hl : a.children.lookup g with
  | none => simp [hl] at h
  | some G' =>
    simp only [hl] at h
    rw [Except.ok.inj h]

theorem addHostToGroup_touches {gs hs : List String} {g host : String} {opts : Value}
    {a a' : AllGroup} (hg : g ∈ gs) (hall : g ≠ "all") (hh : host ∈ hs)
    (h : a.addHostToGroup g host opts = .ok a') : Touches gs hs a a' := by
  rw [addHostToGroup, if_neg hall] at h
  split at h
  · obtain ⟨G, hG, h⟩ := Runs.bind_eq_ok h
    have hlookup := getGroup_eq_ok hG
    have hother : ∀ (d : HostMap), a' = a.setGroup g { G with hosts := .mapping d } →
        (∀ y ∈ d.keys, y ∈ hs ∨ y ∈ a.members g) → Touches gs hs a a' := by
      rintro d rfl hd
      refine ⟨rfl, fun x hx => ?_, fun x y hy => ?_⟩
      · have hne : x ≠ g := fun he => hx (he ▸ hg)
        rw [lookup_setGroup, if_neg hne]
      · rcases mem_members_setGroup a g x y d G.children hy with ⟨rfl, hyd⟩ | hy
        · exact hd y hyd
        · exact .inr hy
    cases hhosts : G.hosts with
    | missing => simp [hhosts] at h
    | null =>
      simp only [hhosts] at h
      refine hother _ (Except.ok.inj h).symm fun y hy => ?_
      obtain rfl : y = host := by simpa [addKey] using hy
      exact .inl hh
    | mapping d =>
      simp only [hhosts] at h
      refine hother _ (Except.ok.inj h).symm fun y hy => ?_
      rw [OrderedDict.keys_setItem, mem_addKey] at hy
      rcases hy with hy | rfl
      · have hd : a.children.lookup g = some ⟨.mapping d, G.children⟩ := by
          rw [hlookup, ← hhosts]
        exact .inr (members_eq_keys hd ▸ hy)
      · exact .inl hh
  · obtain rfl := Except.ok.inj h
    exact Touches.refl gs hs a

theorem addHosts_touches {gs hs : List String} {g : String} {hosts : List String}
    {a a' : AllGroup} (hg : g ∈ gs) (hall : g ≠ "all") (hh : hosts ⊆ hs)
    (h : a.addHosts g hosts = .ok a') : Touches gs hs a a' :=
  Runs.foldlM_rel (Touches.refl gs hs) (fun _ _ _ => Touches.trans) hosts
    (fun _ hm _ _ hstep => addHostToGroup_touches hg hall (hh hm) hstep) h

theorem setCalicoRr_touches {gs hs hosts : List String} {a a' : AllGroup} (hg : "calico_rr" ∈ gs)
    (hh : hosts ⊆ hs) (h : a.setCalicoRr hosts = .ok a') : Touches gs hs a a' := by
  refine Runs.foldlM_rel (Touches.refl gs hs) (fun _ _ _ => Touches.trans) hosts
    (fun host hm b b' hstep => ?_) h
  rw [addCalicoRr] at hstep
  obtain ⟨G, -, hstep⟩ := Runs.bind_eq_ok hstep
  split at hstep
  · obtain rfl := Except.ok.inj hstep
    exact Touches.refl gs hs b
  · obtain ⟨G', -, hstep⟩ := Runs.bind_eq_ok hstep
    split at hstep
    · obtain rfl := Except.ok.inj hstep
      exact Touches.refl gs hs b
    · exact addHostToGroup_touches hg (by decide) (hh hm) hstep

theorem setKubeNode_touches {s : Settings} {gs hs hosts : List String} {a a' : AllGroup}
    (hg : "kube_node" ∈ gs) (hh : hosts ⊆ hs) (h : a.setKubeNode s hosts = .ok a') :
    Touches gs hs a a' := by
  refine Runs.foldlM_rel (Touches.refl gs hs) (fun _ _ _ => Touches.trans) hosts
    (fun host hm b b' hstep => ?_) h
  rw [addKubeNode] at hstep
  obtain ⟨n, -, hstep⟩ := Runs.bind_eq_ok hstep
  obtain ⟨isEtcd, -, hstep⟩ := Runs.bind_eq_ok hstep
  split at hstep
  · obtain rfl := Except.ok.inj hstep
    exact Touches.refl gs hs b
  · obtain ⟨isControlPlane, -, hstep⟩ := Runs.bind_eq_ok hstep
    split at hstep
    · obtain rfl := Except.ok.inj hstep
      exact Touches.refl gs hs b
    · exact addHostToGroup_touches hg (by decide) (hh hm) hstep

end AllGroup

theorem controlPlaneHosts_subset (s : Settings) (names : List String) :
    controlPlaneHosts s names ⊆ names := by
  rw [controlPlaneHosts]
  split <;> exact fun x hx => List.mem_of_mem_take (List.mem_of_mem_drop hx)

/-- The groups that the setters fill. -/
def filledGroups : List String := ["etcd", "kube_control_plane", "kube_node", "calico_rr"]

/-- What the names given and the exempt names let stay. -/
def kept (hosts : List String) (h : String) : Bool := h ∈ hosts || h ∈ protectedNames

/-- What purging and set_all make of all.hosts. -/
def allHostsAfter (hosts d : HostMap) : HostMap :=
  (d.filterKeys (kept hosts.keys)).setAll hosts.entries

/-- A completed purge has done to all.hosts what its name says, whatever the groups are. -/
theorem AllGroup.purgeInvalidHosts_hosts {hosts : List String} {a a' : AllGroup} {d : HostMap}
    (hd : a.hosts = .mapping d) (h : a.purgeInvalidHosts hosts protectedNames = .ok a') :
    a'.hosts = .mapping (d.filterKeys (kept hosts)) := by
  rw [AllGroup.purgeInvalidHosts] at h
  obtain ⟨b, hb, h⟩ := Runs.bind_eq_ok h
  have hsame : b.hosts = a.hosts := by
    refine Runs.foldlM_rel (P := fun x y : AllGroup => y.hosts = x.hosts) (fun _ => rfl)
      (fun _ _ _ h h' => h'.trans h) _ (fun role _ x y hstep => ?_) hb
    rw [AllGroup.purgeRole] at hstep
    split at hstep
    · rw [Except.ok.inj hstep]
    · obtain ⟨G, -, hstep⟩ := Runs.bind_eq_ok hstep
      split at hstep
      · cases hstep
      · rw [Except.ok.inj hstep]
      · rw [← Except.ok.inj hstep]
        rfl
  rw [hsame, hd] at h
  rw [← Except.ok.inj h]
  rfl

/-- After purging and set_all only the filled groups change. -/
theorem assignHosts_touches {s : Settings} {hosts : HostMap} {a a' : AllGroup} {d : HostMap}
    (hd : a.hosts = .mapping d) (h : assignHosts s hosts a = .ok a') :
    ∃ b, a.purgeInvalidHosts hosts.keys protectedNames = .ok b ∧
      AllGroup.Touches filledGroups hosts.keys
        (AllGroup.setK8sCluster { b with hosts := .mapping (allHostsAfter hosts d) }) a' := by
  rw [assignHosts] at h
  obtain ⟨b, hb, h⟩ := Runs.bind_eq_ok h
  rw [b.setAll_spec hosts _ (AllGroup.purgeInvalidHosts_hosts hd hb), Except.bind_ok] at h
  obtain ⟨x1, h1, h⟩ := Runs.bind_eq_ok h
  obtain ⟨x2, h2, h⟩ := Runs.bind_eq_ok h
  obtain ⟨x3, h3, h⟩ := Runs.bind_eq_ok h
  have hetcd : hosts.keys.take (etcdHostsCount hosts.keys.length) ⊆ hosts.keys :=
    List.take_subset _ _
  have hlast : AllGroup.Touches filledGroups hosts.keys x3 a' := by
    split at h
    · exact AllGroup.setCalicoRr_touches (by decide) hetcd h
    · obtain rfl := Except.ok.inj h
      exact AllGroup.Touches.refl _ _ x3
  exact ⟨b, hb, (((AllGroup.addHosts_touches (by decide) (by decide) hetcd h1).trans
    (AllGroup.addHosts_touches (by decide) (by decide) (controlPlaneHosts_subset s _) h2)).trans
    (AllGroup.setKubeNode_touches (by decide) (List.Subset.refl _) h3)).trans hlast⟩

theorem assignHosts_hosts {s : Settings} {hosts : HostMap} {a a' : AllGroup} {d : HostMap}
    (hd : a.hosts = .mapping d) (h : assignHosts s hosts a = .ok a') :
    a'.hosts = .mapping (allHostsAfter hosts d) := by
  obtain ⟨b, -, ht⟩ := assignHosts_touches hd h
  exact ht.hosts

theorem assignHosts_effect (s : Settings) (hosts : HostMap) (a a' : AllGroup) (d : HostMap)
    (hd : a.hosts = .mapping d) (hm : a.HostsInMappings) (h : assignHosts s hosts a = .ok a') :
    a'.hosts = .mapping (allHostsAfter hosts d) ∧
      (∀ x ∉ filledGroups, x ≠ "k8s_cluster" →
        a'.table x = (a.table x).map fun p => (survivors hosts.keys p.1, p.2)) ∧
      ∀ x y, y ∈ a'.members x → y ∈ hosts.keys ∨ (y ∈ protectedNames ∧ y ∈ a.members x) := by
  obtain ⟨b, hb, ht⟩ := assignHosts_touches hd h
  obtain ⟨b', hb', -, -, hbt⟩ := a.purgeInvalidHosts_spec hosts.keys d hd hm
  obtain rfl := Except.ok.inj (hb.symm.trans hb')
  set c : AllGroup := { b with hosts := .mapping (allHostsAfter hosts d) } with hcdef
  refine ⟨ht.hosts, fun x hx hne => ?_, fun x y hy => ?_⟩
  · rw [AllGroup.table_congr (ht.other x hx), AllGroup.table_setK8sCluster c x hne]
    exact hbt x hne
  · rcases ht.members x y hy with hy | hy
    · exact .inl hy
    by_cases hne : x = "k8s_cluster"
    · -- k8s_cluster has been set without hosts
      subst hne
      simp [AllGroup.members, AllGroup.table, AllGroup.setK8sCluster] at hy
    · have htable : c.setK8sCluster.table x =
          (a.table x).map fun p => (survivors hosts.keys p.1, p.2) :=
        (AllGroup.table_setK8sCluster c x hne).trans (hbt x hne)
      rw [AllGroup.members, htable] at hy
      cases hx : a.table x with
      | none => simp [hx] at hy
      | some p =>
        simp only [hx, Option.map_some, Option.getD_some, survivors, List.mem_filter,
          Bool.or_eq_true, decide_eq_true_eq] at hy
        obtain ⟨hyp, hkeep⟩ := hy
        refine hkeep.imp id fun hprot => ⟨hprot, ?_⟩
        rw [AllGroup.members, hx]
        exact hyp

/-- The documented shape, whatever groups there are: hosts are in mappings. -/
structure AllGroup.Documented (a : AllGroup) : Prop where
  hosts : ∃ d, a.hosts = .mapping d
  mappings : a.HostsInMappings

theorem startOf_none_documented : (startOf none).Documented :=
  ⟨startOf_none_wellShaped.hosts, startOf_none_wellShaped.mappings⟩

theorem ensureRequiredGroups_effect (gs : List String) (a : AllGroup) : ∃ a',
    (YamlConfig.dict (some a)).ensureRequiredGroups gs = .ok (.dict (some a')) ∧
      a'.hosts = a.hosts ∧ (a.HostsInMappings → a'.HostsInMappings) ∧
      ∀ x, a'.members x = a.members x := by
  refine ensureRequiredGroups_rel (R := fun a a' => a'.hosts = a.hosts ∧
    (a.HostsInMappings → a'.HostsInMappings) ∧ ∀ x, a'.members x = a.members x)
    (fun _ => ⟨rfl, id, fun _ => rfl⟩) (fun a b c h h' => ?_) (fun a g hnew => ?_) gs a
  · exact ⟨h'.1.trans h.1, h'.2.1 ∘ h.2.1, fun x => (h'.2.2 x).trans (h.2.2 x)⟩
  · have htable : ∀ x, (a.setGroup g ⟨.mapping ∅, none⟩).table x =
        if x = g then some ([], none) else a.table x := fun x => a.table_setGroup g x ∅ none
    refine ⟨rfl, fun hm x hx hne => ?_, fun x => ?_⟩
    · rw [htable]
      split
      · rfl
      · rename_i hxg
        rw [AllGroup.setGroup_keys, mem_addKey] at hx
        exact hm x (hx.resolve_right hxg) hne
    · rw [AllGroup.members, htable]
      split
      · rename_i hxg
        rw [AllGroup.members, AllGroup.table, hxg, (a.children.lookup_eq_none_iff g).mpr hnew]
        rfl
      · rfl

theorem newHosts_congr (s : Settings) {a a' : AllGroup} (h : a'.hosts = a.hosts)
    (args : List String) : newHosts s a' args = newHosts s a args := by
  simp only [newHosts, buildHostnames, h]

theorem ensureRequiredGroups_startOf (o : Option AllGroup) : ∃ a,
    (YamlConfig.dict o).ensureRequiredGroups roles = .ok (.dict (some a)) ∧
      a.hosts = (startOf o).hosts ∧
      ((startOf o).HostsInMappings → a.HostsInMappings) ∧
      ∀ x, a.members x = (startOf o).members x := by
  cases o with
  | none => exact ⟨initial, rfl, rfl, id, fun _ => rfl⟩
  | some a => exact ensureRequiredGroups_effect roles a

/-- After a completed run all.hosts has the hosts that build_hostnames returned, and those
of before that are named like a role; a group lists no others, and none of the latter anew. -/
theorem run_leaves_listed (s : Settings) (o o' : Option AllGroup) (i : HostArgs)
    (hdoc : (startOf o).Documented) (hrun : run s o i = .ok o') :
    ∃ hosts, newHosts s (startOf o) i.args = .ok hosts ∧
      (∀ h, h ∈ (startOf o').hostNames ↔
        h ∈ hosts.keys ∨ (h ∈ protectedNames ∧ h ∈ (startOf o).hostNames)) ∧
      ∀ g, ∀ h ∈ (startOf o').members g,
        h ∈ (startOf o').hostNames ∨ (h ∈ protectedNames ∧ h ∈ (startOf o).members g) := by
  obtain ⟨a, ha, hhosts, hmap, hmem⟩ := ensureRequiredGroups_startOf o
  obtain ⟨d, hd⟩ := hdoc.hosts
  rw [run, build, ha, Except.bind_ok, YamlConfig.getAll, Except.bind_ok,
    newHosts_congr s hhosts] at hrun
  cases hnew : newHosts s (startOf o) i.args with
  | error e =>
    rw [hnew] at hrun
    cases hrun
  | ok hosts =>
    rw [hnew, Except.bind_ok] at hrun
    cases hassign : assignHosts s hosts a with
    | error e =>
      rw [hassign] at hrun
      cases hrun
    | ok a' =>
      rw [hassign] at hrun
      obtain rfl : some a' = o' := Except.ok.inj hrun
      obtain ⟨hall, -, hin⟩ := assignHosts_effect s hosts a a' d (hhosts.trans hd)
        (hmap hdoc.mappings) hassign
      have hnames : ∀ h, h ∈ (startOf (some a')).hostNames ↔
          h ∈ hosts.keys ∨ (h ∈ protectedNames ∧ h ∈ (startOf o).hostNames) := by
        intro h
        have hold : (startOf o).hostNames = d.keys := by rw [AllGroup.hostNames, hd]
        have hnew' : (startOf (some a')).hostNames =
            addKeys (d.keys.filter (kept hosts.keys)) hosts.keys := by
          rw [AllGroup.hostNames, startOf, Option.getD_some, hall]
          exact (OrderedDict.keys_setAll _ _).trans (by rw [OrderedDict.keys_filterKeys]; rfl)
        rw [hold, hnew', mem_addKeys, List.mem_filter, kept, Bool.or_eq_true, decide_eq_true_eq,
          decide_eq_true_eq]
        tauto
      refine ⟨hosts, rfl, hnames, fun g h hh => ?_⟩
      rcases hin g h hh with hh | ⟨hprot, hh⟩
      · exact .inl ((hnames h).mpr (.inl hh))
      · exact .inr ⟨hprot, hmem g ▸ hh⟩

def namedEtcd : AllGroup :=
  { initial with hosts := .mapping ((∅ : HostMap).setItem "etcd" (hostOpts "10.0.0.1" "10.0.0.1")) }

def dropEtcd : HostArgs := ⟨["-etcd"], by decide, by decide⟩

theorem namedEtcd_documented : (startOf (some namedEtcd)).Documented :=
  ⟨⟨_, rfl⟩, startOf_none_documented.mappings⟩

theorem namedEtcd_run : ∃ o', run {} (some namedEtcd) dropEtcd = .ok o' ∧
    "etcd" ∈ (startOf o').hostNames := by
  have hrun : (run {} (some namedEtcd) dropEtcd).toOption.map
      (fun o' => decide ("etcd" ∈ (startOf o').hostNames)) = some true := by decide +kernel
  cases h : run {} (some namedEtcd) dropEtcd with
  | error e => simp [h, Except.toOption] at hrun
  | ok o' => exact ⟨o', rfl, by simpa [h, Except.toOption] using hrun⟩

theorem dropEtcd_leaves_listed : ∃ o', run {} (some namedEtcd) dropEtcd = .ok o' ∧
    ∃ hosts, newHosts {} (startOf (some namedEtcd)) dropEtcd.args = .ok hosts ∧
      (∀ h, h ∈ (startOf o').hostNames ↔
        h ∈ hosts.keys ∨ (h ∈ protectedNames ∧ h ∈ (startOf (some namedEtcd)).hostNames)) ∧
      ∀ g, ∀ h ∈ (startOf o').members g,
        h ∈ (startOf o').hostNames ∨
          (h ∈ protectedNames ∧ h ∈ (startOf (some namedEtcd)).members g) := by
  obtain ⟨o', ho, -⟩ := namedEtcd_run
  exact ⟨o', ho, run_leaves_listed {} (some namedEtcd) o' dropEtcd namedEtcd_documented ho⟩

/-- A host named like a role outlives its deletion. -/
theorem dropEtcd_keeps_etcd : ¬ ∀ (s : Settings) (o o' : Option AllGroup) (i : HostArgs),
    (startOf o).Documented → run s o i = .ok o' →
      ∃ hosts, newHosts s (startOf o) i.args = .ok hosts ∧
        (∀ h, h ∈ (startOf o').hostNames ↔ h ∈ hosts.keys) ∧
        ∀ g, ∀ h ∈ (startOf o').members g, h ∈ (startOf o').hostNames := by
  intro h
  obtain ⟨o', ho, hin⟩ := namedEtcd_run
  obtain ⟨hosts, hnew, hkeys, -⟩ := h {} (some namedEtcd) o' dropEtcd namedEtcd_documented ho
  have hnone : (newHosts {} (startOf (some namedEtcd)) dropEtcd.args).toOption.map
      (fun hosts => decide ("etcd" ∈ hosts.keys)) = some false := by decide +kernel
  rw [hnew] at hnone
  simp [Except.toOption, (hkeys "etcd").mp hin] at hnone

end Kubespray.Inventory

import Kubespray.Inventory.Assignment
import Kubespray.Lib.Runs

/-! Runs of the inventory builder on a configuration in memory, from the empty one on. -/
namespace Kubespray.Inventory

structure HostArgs where
  args : List String
  nonempty : args ≠ []
  notCommand : args.head nonempty ∉ availableCommands

/-- One run; `none` is the empty configuration. -/
def run (s : Settings) (o : Option AllGroup) (i : HostArgs) : Except PyError (Option AllGroup) :=
  (build s (.dict o) i.args).map some

/-- What ensure_required_groups makes of the empty configuration. -/
def initial : AllGroup where
  hosts := .mapping ∅
  children := (∅ : OrderedDict String Group).setAll
    (["kube_control_plane", "kube_node", "etcd", "k8s_cluster", "calico_rr"].map
      (·, ⟨.mapping ∅, none⟩))

def startOf (o : Option AllGroup) : AllGroup := o.getD initial

/-- The names of `self.hosts` in the run. -/
def remaining (s : Settings) (o : Option AllGroup) (i : HostArgs) : List String :=
  match newHosts s (startOf o) i.args with
  | .ok hosts => hosts.keys
  | .error _ => []

theorem initial_table (g : String)
    (hg : g ∈ ["kube_control_plane", "kube_node", "etcd", "k8s_cluster", "calico_rr"]) :
    initial.table g = some ([], none) := by
  have h : ∀ g ∈ ["kube_control_plane", "kube_node", "etcd", "k8s_cluster", "calico_rr"],
      initial.table g = some ([], none) := by decide
  exact h g hg

theorem startOf_none_wellShaped : (startOf none).WellShaped where
  hosts := ⟨∅, rfl⟩
  mappings g hg _ := by
    have h : (startOf none).table g = some ([], none) := initial_table g hg
    rw [h]
    rfl
  plain g hg := ⟨[], initial_table g (by
    have h : ∀ g ∈ ["kube_control_plane", "kube_node", "etcd", "calico_rr"],
        g ∈ ["kube_control_plane", "kube_node", "etcd", "k8s_cluster", "calico_rr"] := by decide
    exact h g hg)⟩
  cluster := by decide

theorem startOf_none_members (g : String)
    (hg : g ∈ ["kube_control_plane", "kube_node", "etcd", "k8s_cluster", "calico_rr"]) :
    (startOf none).members g = [] := by
  have h : (startOf none).table g = some ([], none) := initial_table g hg
  rw [AllGroup.members, h]
  rfl

theorem initial_members (g : String) : initial.members g = [] := by
  by_cases hg : g ∈ ["kube_control_plane", "kube_node", "etcd", "k8s_cluster", "calico_rr"]
  · exact startOf_none_members g hg
  · have hk : g ∉ initial.children.keys := hg
    rw [AllGroup.members, AllGroup.table, (initial.children.lookup_eq_none_iff g).mpr hk]
    rfl

theorem ensureGroup_of_mem (a : AllGroup) (g : String) (hg : g = "all" ∨ g ∈ a.children.keys) :
    (YamlConfig.dict (some a)).ensureGroup g = .ok (.dict (some a)) := by
  by_cases h : g = "all"
  · simp [YamlConfig.ensureGroup, h, YamlConfig.withAll]
  · simp [YamlConfig.ensureGroup, h, YamlConfig.getAll, Except.bind_ok, hg.resolve_left h]

/-- ensure_required_groups leaves the configuration, or adds the group without hosts. -/
theorem ensureGroup_cases (a : AllGroup) (g : String) :
    ((g = "all" ∨ g ∈ a.children.keys) ∧
      (YamlConfig.dict (some a)).ensureGroup g = .ok (.dict (some a))) ∨
    (g ∉ a.children.keys ∧ (YamlConfig.dict (some a)).ensureGroup g =
      .ok (.dict (some (a.setGroup g ⟨.mapping ∅, none⟩)))) := by
  by_cases hg : g = "all" ∨ g ∈ a.children.keys
  · exact .inl ⟨hg, ensureGroup_of_mem a g hg⟩
  · obtain ⟨hall, hnew⟩ := not_or.mp hg
    refine .inr ⟨hnew, ?_⟩
    rw [YamlConfig.ensureGroup, if_neg hall, YamlConfig.getAll, Except.bind_ok, if_neg hnew]
    rfl

/-- What adding an empty group keeps, ensure_required_groups keeps. -/
theorem ensureRequiredGroups_rel {R : AllGroup → AllGroup → Prop} (hrefl : ∀ a, R a a)
    (htrans : ∀ a b c, R a b → R b c → R a c)
    (hnew : ∀ a g, g ∉ a.children.keys → R a (a.setGroup g ⟨.mapping ∅, none⟩))
    (gs : List String) (a : AllGroup) : ∃ a',
    (YamlConfig.dict (some a)).ensureRequiredGroups gs = .ok (.dict (some a')) ∧ R a a' := by
  induction gs generalizing a with
  | nil => exact ⟨a, rfl, hrefl a⟩
  | cons g gs ih =>
    have hone : ∃ b, (YamlConfig.dict (some a)).ensureGroup g = .ok (.dict (some b)) ∧ R a b := by
      cases ensureGroup_cases a g with
      | inl hsame => exact ⟨a, hsame.2, hrefl a⟩
      | inr hadd => exact ⟨_, hadd.2, hnew a g hadd.1⟩
    obtain ⟨b, hb, hab⟩ := hone
    obtain ⟨a', ha', hrest⟩ := ih b
    refine ⟨a', ?_, htrans a b a' hab hrest⟩
    rw [YamlConfig.ensureRequiredGroups] at ha' ⊢
    rw [List.foldlM_cons, hb, Except.bind_ok, ha']

theorem ensureRequiredGroups_of_mem (a : AllGroup) (gs : List String)
    (hgs : ∀ g ∈ gs, g = "all" ∨ g ∈ a.children.keys) :
    (YamlConfig.dict (some a)).ensureRequiredGroups gs = .ok (.dict (some a)) := by
  induction gs with
  | nil => rfl
  | cons g gs ih =>
    have hrest := ih fun x hx => hgs x (List.mem_cons_of_mem g hx)
    rw [YamlConfig.ensureRequiredGroups] at hrest ⊢
    rw [List.foldlM_cons, ensureGroup_of_mem a g (hgs g (by simp)), Except.bind_ok, hrest]

theorem AllGroup.WellShaped.roles_mem {a : AllGroup} (hw : a.WellShaped) (g : String)
    (hg : g ∈ roles) : g = "all" ∨ g ∈ a.children.keys := by
  have hplain : ∀ g ∈ roles, g ≠ "all" → g ≠ "k8s_cluster" →
      g ∈ ["kube_control_plane", "kube_node", "etcd", "calico_rr"] := by decide
  by_cases h : g = "all"
  · exact .inl h
  · by_cases hk : g = "k8s_cluster"
    · exact .inr (hk ▸ hw.cluster)
    · obtain ⟨l, hl⟩ := hw.plain g (hplain g hg h hk)
      exact .inr (AllGroup.mem_keys_of_table hl)

theorem ensureRequiredGroups_dict (o : Option AllGroup) (hw : (startOf o).WellShaped) :
    (YamlConfig.dict o).ensureRequiredGroups roles = .ok (.dict (some (startOf o))) := by
  cases o with
  | none => rfl
  | some a => exact ensureRequiredGroups_of_mem a roles hw.roles_mem

/-- A completed run fills the groups by the rule, and leaves the documented shape. -/
theorem run_spec (s : Settings) (o o' : Option AllGroup) (i : HostArgs)
    (hw : (startOf o).WellShaped) (hrun : run s o i = .ok o') :
    (startOf o').WellShaped ∧
      (startOf o').children.lookup "k8s_cluster" =
        some ⟨.missing, some ["kube_control_plane", "kube_node"]⟩ ∧
      (remaining s o i).Nodup ∧
      (startOf o').assignment = (startOf o).assignment.assign s (remaining s o i) := by
  rw [run, build, ensureRequiredGroups_dict o hw, Except.bind_ok, YamlConfig.getAll,
    Except.bind_ok] at hrun
  cases hnew : newHosts s (startOf o) i.args with
  | error e =>
    rw [hnew] at hrun
    cases hrun
  | ok hosts =>
    obtain ⟨a', ha, hw', hk, hassign⟩ := assignHosts_spec s hosts (startOf o) hw
    rw [hnew, Except.bind_ok, ha] at hrun
    obtain rfl : some a' = o' := Except.ok.inj hrun
    have hrem : remaining s o i = hosts.keys := by simp [remaining, hnew]
    rw [hrem]
    exact ⟨hw', hk, hosts.keys_nodup, hassign⟩

end Kubespray.Inventory

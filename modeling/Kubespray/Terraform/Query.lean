import Kubespray.Terraform.Parsers
import Mathlib.Data.List.Dedup
import Mathlib.Data.List.Flatten
import Mathlib.Data.List.Nodup

/-! What terraform.py prints: query_host for one host, query_list for all groups. Where the two
agree, and where the groups are listed exactly. -/
namespace Kubespray.Terraform

/-- The order in which Python goes through `set(l)`. -/
structure SetOrder where
  order : List String → List String
  perm : ∀ l, (order l).Perm l.dedup

def queryHost (hosts : List Host) (target : String) : Attrs :=
  match hosts with
  | [] => ∅
  | h :: hosts => if h.name = target then h.attrs else queryHost hosts target

inductive Entry where
  | hosts (names : List String)
  | hostvars (vars : OrderedDict String Attrs)

/-- `if not group: group = "all"` -/
def groupName (group : String) : String := if group = "" then "all" else group

/-- The loop over the groups of one host. -/
def listHost (set : SetOrder) (groups : OrderedDict String (List String)) (h : Host) :
    OrderedDict String (List String) :=
  (set.order h.groups).foldl (fun groups group => groups.append (groupName group) h.name) groups

def metaOf (hosts : List Host) : OrderedDict String Attrs :=
  (∅ : OrderedDict String Attrs).setAll (hosts.map fun h => (h.name, h.attrs))

def queryList (set : SetOrder) (hosts : List Host) : OrderedDict String Entry :=
  ((hosts.foldl (listHost set) ∅).mapValues .hosts).setItem "_meta" (.hostvars (metaOf hosts))

/-- `query_list(hosts)['_meta']['hostvars']` -/
def hostvars (output : OrderedDict String Entry) : OrderedDict String Attrs :=
  match output.lookup "_meta" with
  | some (.hostvars vars) => vars
  | _ => ∅

section Modes
variable (set : SetOrder) (hosts : List Host)

/-- The triples of a name, in order. -/
def named (target : String) : List Host := hosts.filter (·.name = target)

theorem queryHost_eq (target : String) :
    queryHost hosts target = ((named hosts target).head?.map Host.attrs).getD ∅ := by
  induction hosts with
  | nil => rfl
  | cons h hosts ih =>
    rw [queryHost, named]
    by_cases hn : h.name = target
    · simp [hn]
    · rw [if_neg hn, ih, named, List.filter_cons_of_neg (by simpa using hn)]

theorem lookup_metaOf (target : String) :
    (metaOf hosts).lookup target = (named hosts target).getLast?.map Host.attrs := by
  have hnamed : (hosts.map fun h => (h.name, h.attrs)).filter (·.1 = target) =
      (named hosts target).map fun h => (h.name, h.attrs) := by
    rw [List.filter_map]
    rfl
  rw [metaOf, OrderedDict.lookup_setAll_getLast?, hnamed, List.getLast?_map, Option.map_map,
    OrderedDict.lookup_empty, Option.or_none]
  rfl

theorem hostvars_queryList : hostvars (queryList set hosts) = metaOf hosts := by
  simp [hostvars, queryList]

end Modes

def dedupOrder : SetOrder := ⟨List.dedup, fun _ => .refl _⟩

/-- The hosts of two state files that each have a k8s-node-1. -/
def twoStates : List Host :=
  (iterhosts scalarPython (.ofList [
    ⟨"root", "openstack_compute_instance_v2.k8s_node",
      instanceAttrs "k8s-node-1" "a1" "10.0.0.1" [("kubespray_groups", .str "kube_node")]⟩,
    ⟨"root", "openstack_compute_instance_v2.k8s_node",
      instanceAttrs "k8s-node-1" "b1" "10.0.1.1" [("kubespray_groups", .str "kube_node")]⟩])).items

section Groups
variable (set : SetOrder)

/-- The groups of the host that query_list lists under `g`, each but once. -/
def listedGroups (g : String) (h : Host) : List String :=
  (set.order h.groups).filter (groupName · = g)

/-- The names that query_list appends under `g`. -/
def listedNames (hosts : List Host) (g : String) : List String :=
  hosts.flatMap fun h => (listedGroups set g h).map fun _ => h.name

theorem listHost_eq (d : OrderedDict String (List String)) (h : Host) :
    listHost set d h = d.appendAll ((set.order h.groups).map fun g => (groupName g, h.name)) := by
  rw [listHost, OrderedDict.appendAll, List.foldl_map]

theorem foldl_listHost (hosts : List Host) (d : OrderedDict String (List String)) :
    hosts.foldl (listHost set) d = d.appendAll
      (hosts.flatMap fun h => (set.order h.groups).map fun g => (groupName g, h.name)) := by
  induction hosts generalizing d with
  | nil => rfl
  | cons h hosts ih =>
    rw [List.foldl_cons, ih, listHost_eq, List.flatMap_cons, OrderedDict.appendAll_append]

theorem lookup_listed (hosts : List Host) (g : String) :
    (hosts.foldl (listHost set) ∅).lookup g =
      if listedNames set hosts g = [] then none else some (listedNames set hosts g) := by
  have hnames : ((hosts.flatMap fun h => (set.order h.groups).map fun x =>
      (groupName x, h.name)).filter (·.1 = g)).map Prod.snd = listedNames set hosts g := by
    rw [List.filter_flatMap, List.map_flatMap, listedNames]
    refine congrArg hosts.flatMap (funext fun h => ?_)
    rw [List.filter_map, List.map_map]
    rfl
  rw [foldl_listHost, OrderedDict.lookup_appendAll, ← hnames]
  simp only [List.map_eq_nil_iff, OrderedDict.lookup_empty, Option.getD_none, List.nil_append]

theorem lookup_queryList (hosts : List Host) (g : String) (hg : g ≠ "_meta") :
    (queryList set hosts).lookup g = if listedNames set hosts g = [] then none
      else some (.hosts (listedNames set hosts g)) := by
  rw [queryList, OrderedDict.lookup_setItem, if_neg hg, OrderedDict.lookup_mapValues, lookup_listed]
  split <;> rfl

theorem mem_order (l : List String) (x : String) : x ∈ set.order l ↔ x ∈ l := by
  rw [(set.perm l).mem_iff, List.mem_dedup]

theorem mem_listedGroups (g x : String) (h : Host) :
    x ∈ listedGroups set g h ↔ x ∈ h.groups ∧ groupName x = g := by
  rw [listedGroups, List.mem_filter, mem_order, decide_eq_true_eq]

theorem mem_listedNames (hosts : List Host) (g n : String) :
    n ∈ listedNames set hosts g ↔ ∃ h ∈ hosts, h.name = n ∧ g ∈ h.groups.map groupName := by
  simp only [listedNames, List.mem_flatMap, List.mem_map, mem_listedGroups]
  constructor
  · intro hex
    obtain ⟨h, hh, x, ⟨hx, hg⟩, hn⟩ := hex
    exact ⟨h, hh, hn, x, hx, hg⟩
  · intro hex
    obtain ⟨h, hh, hn, x, hx, hg⟩ := hex
    exact ⟨h, hh, x, ⟨hx, hg⟩, hn⟩

theorem groupName_eq {x y : String} (h : groupName x = groupName y) :
    x = y ∨ (x = "" ∧ y = "all") ∨ (x = "all" ∧ y = "") := by
  rw [groupName, groupName] at h
  by_cases hx : x = ""
  · by_cases hy : y = ""
    · exact .inl (hx.trans hy.symm)
    · rw [if_pos hx, if_neg hy] at h
      exact .inr (.inl ⟨hx, h.symm⟩)
  · by_cases hy : y = ""
    · rw [if_neg hx, if_pos hy] at h
      exact .inr (.inr ⟨h, hy⟩)
    · rw [if_neg hx, if_neg hy] at h
      exact .inl h

theorem length_le_one {l : List String} (hnd : l.Nodup) (h : ∀ x ∈ l, ∀ y ∈ l, x = y) :
    l.length ≤ 1 := by
  cases l with
  | nil => exact Nat.zero_le 1
  | cons x l =>
    cases l with
    | nil => exact Nat.le_refl 1
    | cons y l =>
      have hxy : x = y := h x (by simp) y (by simp)
      exact absurd (hxy ▸ List.mem_cons_self) (List.nodup_cons.mp hnd).1

/-- A host is listed twice under a group only when the empty name stands beside `all`. -/
theorem length_listedGroups_iff (h : Host) :
    (∀ g, (listedGroups set g h).length ≤ 1) ↔ ¬ ("" ∈ h.groups ∧ "all" ∈ h.groups) := by
  constructor
  · intro hlen hboth
    obtain ⟨hempty, hall⟩ := hboth
    have h1 := (mem_listedGroups set "all" "" h).mpr ⟨hempty, rfl⟩
    have h2 := (mem_listedGroups set "all" "all" h).mpr ⟨hall, rfl⟩
    have hle := hlen "all"
    match hl : listedGroups set "all" h with
    | [] => rw [hl] at h1; cases h1
    | [x] =>
      rw [hl, List.mem_singleton] at h1 h2
      exact absurd (h1.trans h2.symm) (by decide)
    | x :: y :: l => rw [hl] at hle; simp at hle
  · intro hno g
    refine length_le_one (((set.perm h.groups).nodup_iff.mpr (List.nodup_dedup _)).filter _) ?_
    intro x hx y hy
    obtain ⟨hxg, hxe⟩ := (mem_listedGroups set g x h).mp hx
    obtain ⟨hyg, hye⟩ := (mem_listedGroups set g y h).mp hy
    rcases groupName_eq (hxe.trans hye.symm) with heq | ⟨rfl, rfl⟩ | ⟨rfl, rfl⟩
    · exact heq
    · exact absurd ⟨hxg, hyg⟩ hno
    · exact absurd ⟨hyg, hxg⟩ hno

/-- Two hosts that share no group but for the name. -/
def Apart (h h' : Host) : Prop :=
  h.name = h'.name → ∀ x ∈ h.groups, ∀ y ∈ h'.groups, groupName x ≠ groupName y

theorem apart_iff (h h' : Host) :
    (∀ g, List.Disjoint ((listedGroups set g h).map fun _ => h.name)
      ((listedGroups set g h').map fun _ => h'.name)) ↔ Apart h h' := by
  constructor
  · intro hdis hn x hx y hy hxy
    refine hdis (groupName x) (a := h.name) ?_ ?_
    · exact List.mem_map.mpr ⟨x, (mem_listedGroups set _ x h).mpr ⟨hx, rfl⟩, rfl⟩
    · exact List.mem_map.mpr ⟨y, (mem_listedGroups set _ y h').mpr ⟨hy, hxy.symm⟩, hn.symm⟩
  · intro hap g n hm hm'
    obtain ⟨x, hx, rfl⟩ := List.mem_map.mp hm
    obtain ⟨y, hy, hn⟩ := List.mem_map.mp hm'
    obtain ⟨hxg, hxe⟩ := (mem_listedGroups set g x h).mp hx
    obtain ⟨hyg, hye⟩ := (mem_listedGroups set g y h').mp hy
    exact hap hn.symm x hxg y hyg (hxe.trans hye.symm)

theorem listedNames_nodup_iff (hosts : List Host) :
    (∀ g, (listedNames set hosts g).Nodup) ↔
      (∀ h ∈ hosts, ¬ ("" ∈ h.groups ∧ "all" ∈ h.groups)) ∧ hosts.Pairwise Apart := by
  have hone : ∀ g h, ((listedGroups set g h).map fun _ => h.name).Nodup ↔
      (listedGroups set g h).length ≤ 1 := by
    intro g h
    rw [List.map_const', List.nodup_replicate]
  simp only [listedNames, List.nodup_flatMap, forall_and, hone]
  refine and_congr ?_ ?_
  · constructor
    · exact fun hall h hh => (length_listedGroups_iff set h).mp fun g => hall g h hh
    · exact fun hall g h hh => (length_listedGroups_iff set h).mpr (hall h hh) g
  · constructor
    · intro hall
      refine List.pairwise_iff_getElem.mpr fun i j hi hj hij => ?_
      exact (apart_iff set _ _).mp fun g => List.pairwise_iff_getElem.mp (hall g) i j hi hj hij
    · exact fun hap g => hap.imp fun h => (apart_iff set _ _).mpr h g

/-- The result lists the hosts of every group, each once, and the variables of every host. -/
structure GroupsExactly (hosts : List Host) : Prop where
  nodup : ∀ g names, (queryList set hosts).lookup g = some (.hosts names) → names.Nodup
  members : ∀ g n, (∃ names, (queryList set hosts).lookup g = some (.hosts names) ∧ n ∈ names) ↔
    ∃ h ∈ hosts, h.name = n ∧ g ∈ h.groups.map groupName
  complete : ∀ h ∈ hosts, ∀ g ∈ h.groups, groupName g ∈ (queryList set hosts).keys
  hostvars : ∃ vars, (queryList set hosts).lookup "_meta" = some (.hostvars vars) ∧
    ∀ n, vars.lookup n = (named hosts n).getLast?.map Host.attrs

theorem lookup_meta (hosts : List Host) :
    (queryList set hosts).lookup "_meta" = some (.hostvars (metaOf hosts)) := by
  simp [queryList]

theorem groupName_eq_meta (g : String) : groupName g = "_meta" ↔ g = "_meta" := by
  rw [groupName]
  split
  · rename_i hg
    rw [hg]
    decide
  · exact Iff.rfl

theorem listedNames_meta_iff (hosts : List Host) :
    listedNames set hosts "_meta" = [] ↔ ∀ h ∈ hosts, "_meta" ∉ h.groups := by
  rw [List.eq_nil_iff_forall_not_mem]
  simp only [mem_listedNames, List.mem_map, groupName_eq_meta]
  constructor
  · intro hno h hh hg
    exact hno h.name ⟨h, hh, rfl, "_meta", hg, rfl⟩
  · intro hno n hex
    obtain ⟨h, hh, -, g, hg, rfl⟩ := hex
    exact hno h hh hg

/-- Where no group is named `_meta`, the result has the names that were appended. -/
theorem mem_listed_iff (hosts : List Host) (hnone : listedNames set hosts "_meta" = []) (g n : String) :
    (∃ names, (queryList set hosts).lookup g = some (.hosts names) ∧ n ∈ names) ↔
      n ∈ listedNames set hosts g := by
  by_cases hg : g = "_meta"
  · simp [hg, lookup_meta, hnone]
  · rw [lookup_queryList set hosts g hg]
    by_cases hl : listedNames set hosts g = []
    · simp [hl]
    · simp [hl]

/-- The lists of the result are those of the names, each of which is one of them or empty. -/
theorem listed_nodup_iff (hosts : List Host) (hnone : listedNames set hosts "_meta" = []) :
    (∀ g names, (queryList set hosts).lookup g = some (.hosts names) → names.Nodup) ↔
      ∀ g, (listedNames set hosts g).Nodup := by
  constructor
  · intro hnd g
    by_cases hg : g = "_meta"
    · rw [hg, hnone]
      exact List.nodup_nil
    by_cases hl : listedNames set hosts g = []
    · rw [hl]
      exact List.nodup_nil
    · exact hnd g _ (by rw [lookup_queryList set hosts g hg, if_neg hl])
  · intro hnd g names hlook
    by_cases hg : g = "_meta"
    · rw [hg, lookup_meta] at hlook
      cases hlook
    · rw [lookup_queryList set hosts g hg] at hlook
      split at hlook
      · cases hlook
      · exact Entry.hosts.inj (Option.some.inj hlook) ▸ hnd g

/-- The groups are listed exactly when no host has both the empty group and `all`, hosts of one
name have no group in common, and no group is named `_meta`. -/
theorem groupsExactly_iff (hosts : List Host) :
    GroupsExactly set hosts ↔ (∀ h ∈ hosts, ¬ ("" ∈ h.groups ∧ "all" ∈ h.groups)) ∧
      hosts.Pairwise Apart ∧ ∀ h ∈ hosts, "_meta" ∉ h.groups := by
  rw [← and_assoc, ← listedNames_nodup_iff set, ← listedNames_meta_iff set]
  constructor
  · intro hex
    have hnone : listedNames set hosts "_meta" = [] := by
      rw [List.eq_nil_iff_forall_not_mem]
      intro n hn
      obtain ⟨names, hlook, -⟩ := (hex.members "_meta" n).mpr ((mem_listedNames set _ _ n).mp hn)
      rw [lookup_meta] at hlook
      cases hlook
    exact ⟨(listed_nodup_iff set hosts hnone).mp hex.nodup, hnone⟩
  · intro hcond
    obtain ⟨hnd, hnone⟩ := hcond
    have hmembers := mem_listed_iff set hosts hnone
    refine ⟨(listed_nodup_iff set hosts hnone).mpr hnd, fun g n => ?_, fun h hh g hg => ?_, ?_⟩
    · rw [hmembers, mem_listedNames]
    · have hm : h.name ∈ listedNames set hosts (groupName g) :=
        (mem_listedNames set hosts _ _).mpr ⟨h, hh, rfl, List.mem_map_of_mem hg⟩
      obtain ⟨names, hlook, -⟩ := (hmembers _ _).mpr hm
      exact ((queryList set hosts).mem_keys_iff _).mpr ⟨_, hlook⟩
    · exact ⟨metaOf hosts, lookup_meta set hosts, lookup_metaOf hosts⟩

end Groups

theorem twoStates_listed_twice : ¬ ∀ hosts : List Host, GroupsExactly dedupOrder hosts := by
  intro h
  have htwice : listedNames dedupOrder twoStates "kube_node" = ["k8s-node-1", "k8s-node-1"] := by
    decide +kernel
  have hnd := (h twoStates).nodup "kube_node" _ (by
    rw [lookup_queryList dedupOrder twoStates "kube_node" (by decide), htwice]
    rfl)
  exact absurd hnd (by decide)

end Kubespray.Terraform

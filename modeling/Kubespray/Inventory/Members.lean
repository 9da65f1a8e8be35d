import Kubespray.Inventory.Groups
import Mathlib.Tactic.Common

/-! Who is in which group: what each operation of the inventory builder does to the
members of the groups. -/
namespace Kubespray.Inventory

theorem Except.bind_ok {ε α β : Type} (x : α) (f : α → Except ε β) : (Except.ok x >>= f) = f x := rfl

/-- Whether set_kube_node adds the host, given the length of all.hosts and the members of
etcd and kube_control_plane. -/
def becomesNode (s : Settings) (n : Nat) (etcd controlPlane : List String) (host : String) : Bool :=
  !(s.scaleThreshold ≤ n && host ∈ etcd) && !(s.massiveScaleThreshold ≤ n && host ∈ controlPlane)

theorem becomesNode_iff (s : Settings) (n : Nat) (etcd controlPlane : List String) (host : String) :
    becomesNode s n etcd controlPlane host = true ↔ (s.scaleThreshold ≤ n → host ∉ etcd) ∧
      (s.massiveScaleThreshold ≤ n → host ∉ controlPlane) := by
  simp [becomesNode, imp_iff_not_or]

namespace AllGroup

/-- The members of a group that has a mapping under 'hosts', and what is below its 'children'. -/
def table (a : AllGroup) (group : String) : Option (List String × Option (List String)) :=
  match a.children.lookup group with
  | some ⟨.mapping d, c⟩ => some (d.keys, c)
  | _ => none

def members (a : AllGroup) (group : String) : List String := ((a.table group).map Prod.fst).getD []

theorem table_eq_some_iff (a : AllGroup) (group : String) (p : List String × Option (List String)) :
    a.table group = some p ↔
      ∃ d, a.children.lookup group = some ⟨.mapping d, p.2⟩ ∧ p.1 = d.keys := by
  obtain ⟨l, c⟩ := p
  rw [table]
  split
  · rename_i d c' hl
    simp only [hl, Option.some.injEq, Prod.mk.injEq, Group.mk.injEq, HostsKey.mapping.injEq]
    constructor
    · intro hfacts
      obtain ⟨hd, hc⟩ := hfacts
      exact ⟨d, ⟨rfl, hc⟩, hd.symm⟩
    · intro hfacts
      obtain ⟨d', ⟨hd, hc⟩, hk⟩ := hfacts
      exact ⟨hd ▸ hk.symm, hc⟩
  · rename_i hno
    simp only [reduceCtorEq, false_iff, not_exists, not_and]
    intro d hd
    exact absurd hd (hno d c)

@[simp] theorem setGroup_keys (a : AllGroup) (g : String) (G : Group) :
    (a.setGroup g G).children.keys = addKey g a.children.keys := by
  simp [setGroup]

@[simp] theorem lookup_setGroup (a : AllGroup) (g x : String) (G : Group) :
    (a.setGroup g G).children.lookup x = if x = g then some G else a.children.lookup x := by
  simp [setGroup]

theorem table_setGroup (a : AllGroup) (g x : String) (d : HostMap) (c : Option (List String)) :
    (a.setGroup g ⟨.mapping d, c⟩).table x = if x = g then some (d.keys, c) else a.table x := by
  by_cases hx : x = g <;> simp [table, hx]

theorem mem_keys_of_table {a : AllGroup} {g : String} {p : List String × Option (List String)}
    (h : a.table g = some p) : g ∈ a.children.keys := by
  obtain ⟨d, hd, -⟩ := (a.table_eq_some_iff g p).mp h
  exact (a.children.mem_keys_iff g).mpr ⟨_, hd⟩

theorem table_congr {a a' : AllGroup} {x : String}
    (h : a'.children.lookup x = a.children.lookup x) : a'.table x = a.table x := by
  rw [table, h, ← table]

/-- The hosts `hs` have been added to the group `g`; all else is as before. -/
structure Adds (g : String) (hs : List String) (a a' : AllGroup) : Prop where
  hosts : a'.hosts = a.hosts
  keys : a'.children.keys = a.children.keys
  other : ∀ x, x ≠ g → a'.children.lookup x = a.children.lookup x
  table : a'.table g = (a.table g).map fun p => (addKeys p.1 hs, p.2)

theorem Adds.refl (g : String) (a : AllGroup) : Adds g [] a a where
  hosts := rfl
  keys := rfl
  other _ _ := rfl
  table := by simp

theorem Adds.trans {g : String} {hs ks : List String} {a b c : AllGroup} (h : Adds g hs a b)
    (h' : Adds g ks b c) : Adds g (hs ++ ks) a c where
  hosts := h'.hosts.trans h.hosts
  keys := h'.keys.trans h.keys
  other x hx := (h'.other x hx).trans (h.other x hx)
  table := by
    rw [h'.table, h.table]
    simp [addKeys_append, Function.comp_def]

theorem Adds.table_of_ne {g : String} {hs : List String} {a a' : AllGroup} (h : Adds g hs a a')
    {x : String} (hx : x ≠ g) : a'.table x = a.table x :=
  table_congr (h.other x hx)

theorem Adds.table_self {g : String} {hs : List String} {a a' : AllGroup} (h : Adds g hs a a')
    {p : List String × Option (List String)} (hp : a.table g = some p) :
    a'.table g = some (addKeys p.1 hs, p.2) := by
  rw [h.table, hp]
  rfl

theorem addHostToGroup_spec (g host : String) (opts : Value) (a : AllGroup)
    (p : List String × Option (List String)) (hp : a.table g = some p) (hall : g ≠ "all")
    (hk : g ≠ "k8s_cluster:children") :
    ∃ a', a.addHostToGroup g host opts = .ok a' ∧ Adds g [host] a a' := by
  obtain ⟨d, hd, hkeys⟩ := (a.table_eq_some_iff g p).mp hp
  refine ⟨a.setGroup g ⟨.mapping (d.setItem host .null), p.2⟩, ?_, rfl, ?_, fun x hx => ?_, ?_⟩
  · simp only [addHostToGroup, if_neg hall, ne_eq, hk, not_false_eq_true, if_true, getGroup, hd]
    rfl
  · rw [setGroup_keys, addKey_of_mem _ _ (mem_keys_of_table hp)]
  · rw [lookup_setGroup, if_neg hx]
  · rw [table_setGroup, if_pos rfl, hp]
    simp [hkeys]

/-- A loop each round of which adds its host under a condition that the rounds keep. -/
theorem foldlM_adds (g : String) (c : String → Bool) (f : AllGroup → String → Except PyError AllGroup)
    (I : AllGroup → Prop)
    (hf : ∀ a host, I a → ∃ a', f a host = .ok a' ∧ Adds g (if c host then [host] else []) a a')
    (hI : ∀ a a' hs, I a → Adds g hs a a' → I a') (hosts : List String) (a : AllGroup) (ha : I a) :
    ∃ a', hosts.foldlM f a = .ok a' ∧ Adds g (hosts.filter c) a a' := by
  induction hosts generalizing a with
  | nil => exact ⟨a, rfl, Adds.refl g a⟩
  | cons host hosts ih =>
    obtain ⟨b, hb, hadd⟩ := hf a host ha
    obtain ⟨a', ha', hadds⟩ := ih b (hI a b _ ha hadd)
    refine ⟨a', ?_, ?_⟩
    · rw [List.foldlM_cons, hb, Except.bind_ok, ha']
    · have ht := hadd.trans hadds
      by_cases hc : c host = true
      · simpa [hc] using ht
      · simpa [hc] using ht

theorem Adds.table_isSome {g : String} {hs : List String} {a a' : AllGroup} (h : Adds g hs a a')
    (x : String) : (a'.table x).isSome = (a.table x).isSome := by
  by_cases hx : x = g
  · rw [hx, h.table, Option.isSome_map]
  · rw [h.table_of_ne hx]

theorem addHosts_spec (g : String) (hosts : List String) (a : AllGroup) (hp : (a.table g).isSome)
    (hall : g ≠ "all") (hk : g ≠ "k8s_cluster:children") :
    ∃ a', a.addHosts g hosts = .ok a' ∧ Adds g hosts a a' := by
  obtain ⟨a', ha, hadd⟩ := foldlM_adds g (fun _ => true)
    (fun a host => a.addHostToGroup g host (.str "")) (fun a => (a.table g).isSome)
    (by
      intro a host ha
      obtain ⟨p, hp⟩ := Option.isSome_iff_exists.mp ha
      simpa using addHostToGroup_spec g host (.str "") a p hp hall hk)
    (fun a a' hs ha h => (h.table_isSome g).trans ha) hosts a hp
  exact ⟨a', ha, by simpa using hadd⟩

def IsPlain (a : AllGroup) (g : String) : Prop := ∃ l, a.table g = some (l, none)

theorem IsPlain.isSome {a : AllGroup} {g : String} (h : a.IsPlain g) : (a.table g).isSome := by
  obtain ⟨l, hl⟩ := h
  rw [hl]
  rfl

theorem Adds.isPlain {g : String} {hs : List String} {a a' : AllGroup} (h : Adds g hs a a')
    {x : String} (hx : a.IsPlain x) : a'.IsPlain x := by
  obtain ⟨l, hl⟩ := hx
  by_cases hxg : x = g
  · subst hxg
    exact ⟨_, h.table_self hl⟩
  · exact ⟨l, by rw [h.table_of_ne hxg, hl]⟩

theorem IsPlain.getGroup {a : AllGroup} {g : String} (h : a.IsPlain g) :
    ∃ d, a.getGroup g = .ok ⟨.mapping d, none⟩ ∧ a.members g = d.keys := by
  obtain ⟨l, hl⟩ := h
  obtain ⟨d, hd, hk⟩ := (a.table_eq_some_iff g _).mp hl
  refine ⟨d, by simp only [AllGroup.getGroup, hd], ?_⟩
  rw [members, hl]
  exact hk

/-- set_calico_rr leaves out only a host whose name is that of the key 'hosts'. -/
theorem setCalicoRr_spec (hosts : List String) (a : AllGroup)
    (hc : a.IsPlain "kube_control_plane") (hn : a.IsPlain "kube_node")
    (hr : (a.table "calico_rr").isSome) :
    ∃ a', a.setCalicoRr hosts = .ok a' ∧ Adds "calico_rr" (hosts.filter (· ≠ "hosts")) a a' := by
  refine foldlM_adds "calico_rr" (fun host => decide (host ≠ "hosts")) addCalicoRr
    (fun a => a.IsPlain "kube_control_plane" ∧ a.IsPlain "kube_node" ∧
      (a.table "calico_rr").isSome)
    (fun a host ⟨hc, hn, hr⟩ => ?_)
    (fun a a' hs ⟨hc, hn, hr⟩ h => ⟨h.isPlain hc, h.isPlain hn, (h.table_isSome _).trans hr⟩)
    hosts a ⟨hc, hn, hr⟩
  obtain ⟨d, hd, -⟩ := hc.getGroup
  obtain ⟨d', hd', -⟩ := hn.getGroup
  by_cases hh : host = "hosts"
  · refine ⟨a, ?_, by simpa [hh] using Adds.refl _ a⟩
    simp [addCalicoRr, hd, hh, Except.bind_ok, Group.keys]
  · obtain ⟨p, hp⟩ := Option.isSome_iff_exists.mp hr
    obtain ⟨a', ha, hadd⟩ := addHostToGroup_spec "calico_rr" host (.str "") a p hp (by decide)
      (by decide)
    refine ⟨a', ?_, by simpa [hh] using hadd⟩
    simp [addCalicoRr, hd, hd', hh, Except.bind_ok, Group.keys, ha]

theorem inGroupFrom_eq (a : AllGroup) (threshold : Int) (n : Nat) (g host : String)
    (hg : a.IsPlain g) :
    a.inGroupFrom threshold n g host = .ok (decide (threshold ≤ n) && decide (host ∈ a.members g)) := by
  obtain ⟨d, hd, hm⟩ := hg.getGroup
  by_cases ht : threshold ≤ n
  · simp [inGroupFrom, ht, inGroup, hd, hm, Except.bind_ok, HostsKey.contains]
  · simp [inGroupFrom, ht]

theorem addKubeNode_eq (s : Settings) (a : AllGroup) (host : String) (d : HostMap)
    (hd : a.hosts = .mapping d) (he : a.IsPlain "etcd") (hc : a.IsPlain "kube_control_plane") :
    addKubeNode s a host =
      if becomesNode s d.keys.length (a.members "etcd") (a.members "kube_control_plane") host then
        a.addHostToGroup "kube_node" host (.str "")
      else .ok a := by
  have hlen : a.hosts.len = .ok d.keys.length := by rw [hd]; rfl
  rw [addKubeNode, hlen, Except.bind_ok, inGroupFrom_eq a _ _ _ host he,
    inGroupFrom_eq a _ _ _ host hc, Except.bind_ok, becomesNode]
  cases (decide (s.scaleThreshold ≤ d.keys.length) && decide (host ∈ a.members "etcd")) with
  | true => simp
  | false =>
    rw [if_neg Bool.false_ne_true, Except.bind_ok]
    cases (decide (s.massiveScaleThreshold ≤ d.keys.length) &&
      decide (host ∈ a.members "kube_control_plane")) with
    | true => simp
    | false => simp

theorem setKubeNode_spec (s : Settings) (hosts : List String) (a : AllGroup) (d : HostMap)
    (hd : a.hosts = .mapping d) (he : a.IsPlain "etcd") (hc : a.IsPlain "kube_control_plane")
    (hn : (a.table "kube_node").isSome) :
    ∃ a', a.setKubeNode s hosts = .ok a' ∧ Adds "kube_node"
      (hosts.filter (becomesNode s d.keys.length (a.members "etcd")
        (a.members "kube_control_plane"))) a a' := by
  refine foldlM_adds "kube_node" _ (addKubeNode s)
    (fun b => b.hosts = .mapping d ∧ b.table "etcd" = a.table "etcd" ∧
      b.table "kube_control_plane" = a.table "kube_control_plane" ∧ (b.table "kube_node").isSome)
    (fun b host ⟨hd, hbe, hbc, hbn⟩ => ?_)
    (fun b b' hs ⟨hd, hbe, hbc, hbn⟩ h => ⟨h.hosts.trans hd, ?_, ?_, ?_⟩) hosts a ⟨hd, rfl, rfl, hn⟩
  · have hb := addKubeNode_eq s b host d hd (by rwa [IsPlain, hbe]) (by rwa [IsPlain, hbc])
    rw [members, members, hbe, hbc, ← members, ← members] at hb
    obtain ⟨p, hp⟩ := Option.isSome_iff_exists.mp hbn
    obtain ⟨b', hb', hadd⟩ := addHostToGroup_spec "kube_node" host (.str "") b p hp (by decide)
      (by decide)
    by_cases hnode : becomesNode s d.keys.length (a.members "etcd")
        (a.members "kube_control_plane") host = true
    · exact ⟨b', by rw [hb, if_pos hnode, hb'], by rwa [if_pos hnode]⟩
    · exact ⟨b, by rw [hb, if_neg hnode], by rw [if_neg hnode]; exact Adds.refl _ b⟩
  · rw [h.table_of_ne (by decide), hbe]
  · rw [h.table_of_ne (by decide), hbc]
  · rw [h.table_isSome, hbn]

/-- The groups that have their hosts in a mapping: all but k8s_cluster. -/
def HostsInMappings (a : AllGroup) : Prop :=
  ∀ g ∈ a.children.keys, g ≠ "k8s_cluster" → (a.table g).isSome

theorem purgeRole_spec (keep : String → Bool) (a : AllGroup) (g : String)
    (hg : g ∈ a.children.keys) (hs : g ≠ "k8s_cluster" → (a.table g).isSome) :
    ∃ a', purgeRole keep a g = .ok a' ∧ a'.hosts = a.hosts ∧ a'.children.keys = a.children.keys ∧
      ∀ x, a'.table x = if x = g ∧ x ≠ "k8s_cluster" then
        (a.table x).map (fun p => (p.1.filter keep, p.2)) else a.table x := by
  by_cases hk : g = "k8s_cluster"
  · refine ⟨a, by simp [purgeRole, hk], rfl, rfl, fun x => ?_⟩
    rw [if_neg]
    intro hfacts
    obtain ⟨hx, hne⟩ := hfacts
    exact hne (hx.trans hk)
  · obtain ⟨p, hp⟩ := Option.isSome_iff_exists.mp (hs hk)
    obtain ⟨d, hd, hkeys⟩ := (a.table_eq_some_iff g p).mp hp
    refine ⟨a.setGroup g ⟨.mapping (d.filterKeys keep), p.2⟩, ?_, rfl, ?_, fun x => ?_⟩
    · simp only [purgeRole, if_neg hk, getGroup, hd, Except.bind_ok]
    · rw [setGroup_keys, addKey_of_mem _ _ hg]
    · rw [table_setGroup]
      by_cases hx : x = g
      · subst hx
        simp [hk, hp, hkeys]
      · simp [hx]

theorem purgeRoles_spec (keep : String → Bool) (gs : List String) (hnd : gs.Nodup) (a : AllGroup)
    (hgs : ∀ g ∈ gs, g ∈ a.children.keys ∧ (g ≠ "k8s_cluster" → (a.table g).isSome)) :
    ∃ a', gs.foldlM (purgeRole keep) a = .ok a' ∧ a'.hosts = a.hosts ∧
      a'.children.keys = a.children.keys ∧
      ∀ x, a'.table x = if x ∈ gs ∧ x ≠ "k8s_cluster" then
        (a.table x).map (fun p => (p.1.filter keep, p.2)) else a.table x := by
  induction gs generalizing a with
  | nil => exact ⟨a, rfl, rfl, rfl, by simp⟩
  | cons g gs ih =>
    obtain ⟨hg, hgs'⟩ := List.nodup_cons.mp hnd
    obtain ⟨b, hb, hbh, hbk, hbt⟩ := purgeRole_spec keep a g (hgs g (by simp)).1 (hgs g (by simp)).2
    obtain ⟨a', ha', hh, hkeys, ht⟩ := ih hgs' b (by
      intro x hx
      have hne : x ≠ g := fun he => hg (he ▸ hx)
      have h := hgs x (List.mem_cons_of_mem g hx)
      rw [hbk, hbt, if_neg (fun hc => hne hc.1)]
      exact h)
    refine ⟨a', ?_, hh.trans hbh, hkeys.trans hbk, fun x => ?_⟩
    · rw [List.foldlM_cons, hb, Except.bind_ok, ha']
    · rw [ht, hbt]
      by_cases hx : x = g
      · subst hx
        simp [hg]
      · simp [hx]

theorem purgeInvalidHosts_spec (hostnames : List String) (a : AllGroup) (d : HostMap)
    (hd : a.hosts = .mapping d) (hm : a.HostsInMappings) :
    ∃ a', a.purgeInvalidHosts hostnames protectedNames = .ok a' ∧
      a'.hosts = .mapping (d.filterKeys fun h => h ∈ hostnames || h ∈ protectedNames) ∧
      a'.children.keys = a.children.keys ∧
      ∀ x, x ≠ "k8s_cluster" → a'.table x = (a.table x).map fun p =>
        (p.1.filter (fun h => h ∈ hostnames || h ∈ protectedNames), p.2) := by
  obtain ⟨b, hb, hbh, hbk, hbt⟩ := purgeRoles_spec
    (fun h => decide (h ∈ hostnames) || decide (h ∈ protectedNames)) a.children.keys
    a.children.keys_nodup a (fun g hg => ⟨hg, hm g hg⟩)
  refine ⟨{ b with
    hosts := .mapping (d.filterKeys fun h => h ∈ hostnames || h ∈ protectedNames) }, ?_, rfl, hbk,
    fun x hx => ?_⟩
  · rw [purgeInvalidHosts, hb, Except.bind_ok, hbh, hd]
  · have ht : ({ b with
        hosts := .mapping (d.filterKeys fun h => h ∈ hostnames || h ∈ protectedNames) } :
          AllGroup).table x = b.table x := rfl
    rw [ht, hbt]
    by_cases hk : x ∈ a.children.keys
    · simp [hk, hx]
    · have hn : a.table x = none := by
        rw [table, (a.children.lookup_eq_none_iff x).mpr hk]
      simp [hk, hn]

theorem setAll_spec (hosts : HostMap) (a : AllGroup) (d : HostMap) (hd : a.hosts = .mapping d) :
    a.setAll hosts = .ok { a with hosts := .mapping (d.setAll hosts.entries) } := by
  obtain ⟨entries, hnd⟩ := hosts
  simp only [setAll]
  clear hnd
  induction entries generalizing a d with
  | nil =>
    rw [List.foldlM_nil, OrderedDict.setAll_nil, ← hd]
    rfl
  | cons e es ih =>
    have he : a.addHostToGroup "all" e.1 e.2 = .ok { a with hosts := .mapping (d.setItem e.1 e.2) } := by
      simp [addHostToGroup, hd]
    rw [List.foldlM_cons, he, Except.bind_ok, ih _ (d.setItem e.1 e.2) rfl]
    rfl

theorem table_setK8sCluster (a : AllGroup) (x : String) (hx : x ≠ "k8s_cluster") :
    a.setK8sCluster.table x = a.table x := by
  simp [setK8sCluster, table, hx]

end AllGroup
end Kubespray.Inventory

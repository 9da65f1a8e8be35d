import Kubespray.Inventory.Purge

/-! load_file: what the data of an input file makes of all.hosts and of the groups, and what
CONFIG_FILE holds when one of several files fails. -/
namespace Kubespray.Inventory

/-- The options of a host in the data. -/
structure HostOptions where
  fields : List (String × Value)
  ip : Value
  ip_eq : fields.lookup "ip" = some ip

abbrev DataGroup := String × OrderedDict String HostOptions

/-- The data of an input file: groups of hosts with their options, one ip for each host. -/
structure InventoryData where
  groups : OrderedDict String (OrderedDict String HostOptions)
  oneIp : ∀ g ∈ groups.entries, ∀ g' ∈ groups.entries, ∀ e ∈ g.2.entries, ∀ e' ∈ g'.2.entries,
    e.1 = e'.1 → e.2.ip = e'.2.ip

def hostsJson (hosts : OrderedDict String HostOptions) : Value :=
  .obj (hosts.entries.map fun e => (e.1, .obj e.2.fields))

def InventoryData.json (data : InventoryData) : Value :=
  .obj (data.groups.entries.map fun g => (g.1, hostsJson g.2))

/-- `optstring` -/
def optstring (ip : Value) : Value := .obj [("ansible_host", ip), ("ip", ip), ("access_ip", ip)]

namespace AllGroup

/-- The options of a host in all.hosts. -/
def entry (a : AllGroup) (host : String) : Option Value :=
  match a.hosts with
  | .mapping d => d.lookup host
  | _ => none

/-- The group is there without the key 'hosts'. -/
def Bare (a : AllGroup) (g : String) : Prop := ∃ c, a.children.lookup g = some ⟨.missing, c⟩

/-- The hosts have been written to all.hosts and listed in the groups; all else is as before. -/
structure Loads (ws : List (String × Value)) (ms : List (String × String)) (a a' : AllGroup) :
    Prop where
  entries : ∀ h, a'.entry h = (ws.reverse.lookup h).or (a.entry h)
  members : ∀ x h, h ∈ a'.members x ↔ h ∈ a.members x ∨ (x, h) ∈ ms
  missing : a'.hosts = .missing ↔ a.hosts = .missing
  bare : ∀ x, a'.Bare x ↔ a.Bare x
  keys : a.children.keys ⊆ a'.children.keys

theorem Loads.refl (a : AllGroup) : Loads [] [] a a where
  entries _ := rfl
  members _ _ := by simp
  missing := Iff.rfl
  bare _ := Iff.rfl
  keys := List.Subset.refl _

theorem Loads.trans {ws ws' : List (String × Value)} {ms ms' : List (String × String)}
    {a b c : AllGroup} (h : Loads ws ms a b) (h' : Loads ws' ms' b c) :
    Loads (ws ++ ws') (ms ++ ms') a c where
  entries x := by
    rw [h'.entries, h.entries, List.reverse_append, List.lookup_append, Option.or_assoc]
  members x y := by
    rw [h'.members, h.members, List.mem_append, or_assoc]
  missing := h'.missing.trans h.missing
  bare x := (h'.bare x).trans (h.bare x)
  keys := List.Subset.trans h.keys h'.keys

theorem addHostToGroup_all_missing {a : AllGroup} (h : a.hosts = .missing) (host : String)
    (opts : Value) : a.addHostToGroup "all" host opts = .error (.keyError "hosts") := by
  rw [addHostToGroup, if_pos rfl, h]

theorem addHostToGroup_all {a : AllGroup} (h : a.hosts ≠ .missing) (host : String) (opts : Value) :
    ∃ a', a.addHostToGroup "all" host opts = .ok a' ∧ Loads [(host, opts)] [] a a' := by
  have hloads : ∀ d d' : HostMap, (∀ x, a.entry x = d.lookup x) →
      (∀ x, d'.lookup x = if x = host then some opts else d.lookup x) →
      Loads [(host, opts)] [] a { a with hosts := .mapping d' } := by
    intro d d' hd hd'
    refine ⟨fun x => ?_, fun x y => by simp [members, table], by simp [h], fun _ => Iff.rfl,
      List.Subset.refl _⟩
    have hentry : ({ a with hosts := .mapping d' } : AllGroup).entry x = d'.lookup x := rfl
    rw [hentry, hd', hd, List.reverse_singleton, lookup_cons_if]
    by_cases hx : x = host <;> simp [hx]
  rw [addHostToGroup, if_pos rfl]
  cases hhosts : a.hosts with
  | missing => exact absurd hhosts h
  | null =>
    refine ⟨_, rfl, hloads ∅ _ (fun x => by simp [entry, hhosts]) fun x => ?_⟩
    by_cases hx : x = host <;> simp [hx]
  | mapping d =>
    exact ⟨_, rfl, hloads d _ (fun x => by simp [entry, hhosts]) fun x => by simp⟩

theorem addHostToGroup_bare {a : AllGroup} {g : String} (hall : g ≠ "all")
    (hchildren : g ≠ "k8s_cluster:children") (h : a.Bare g) (host : String) (opts : Value) :
    a.addHostToGroup g host opts = .error (.keyError "hosts") := by
  obtain ⟨c, hc⟩ := h
  rw [addHostToGroup, if_neg hall, if_pos hchildren, getGroup, hc]
  rfl

theorem loads_setGroup {a : AllGroup} {g host : String} {G : Group} {d d' : HostMap}
    (hG : a.children.lookup g = some G) (hbare : ¬ a.Bare g)
    (hd : ∀ h, h ∈ a.members g ↔ h ∈ d.keys) (hd' : ∀ h, h ∈ d'.keys ↔ h ∈ d.keys ∨ h = host) :
    Loads [] [(g, host)] a (a.setGroup g ⟨.mapping d', G.children⟩) where
  entries _ := rfl
  members x h := by
    rw [members, table_setGroup]
    by_cases hx : x = g
    · subst hx
      rw [if_pos rfl, hd]
      simpa using hd' h
    · simp [hx, members]
  missing := Iff.rfl
  bare x := by
    rw [Bare, Bare]
    by_cases hx : x = g
    · subst hx
      simpa [Bare] using hbare
    · simp [hx]
  keys x hx := by
    rw [setGroup_keys, mem_addKey]
    exact .inl hx

theorem addHostToGroup_group {a : AllGroup} {g : String} (hall : g ≠ "all")
    (hchildren : g ≠ "k8s_cluster:children") (hg : g ∈ a.children.keys) (hbare : ¬ a.Bare g)
    (host : String) (opts : Value) :
    ∃ a', a.addHostToGroup g host opts = .ok a' ∧ Loads [] [(g, host)] a a' := by
  obtain ⟨⟨hosts, c⟩, hG⟩ := (a.children.mem_keys_iff g).mp hg
  rw [addHostToGroup, if_neg hall, if_pos hchildren, getGroup, hG, Except.bind_ok]
  cases hosts with
  | missing => exact absurd ⟨c, hG⟩ hbare
  | null =>
    refine ⟨_, rfl, loads_setGroup (d := ∅) hG hbare (fun h => ?_) fun h => by simp⟩
    simp [members, table, hG]
  | mapping d =>
    refine ⟨_, rfl, loads_setGroup (d := d) hG hbare (fun h => ?_) fun h => by simp⟩
    rw [members_eq_keys hG]

end AllGroup

open AllGroup (Loads)

section Groups

theorem setGroup_loads {a : AllGroup} {g : String} (hnew : g ∉ a.children.keys) :
    Loads [] [] a (a.setGroup g ⟨.mapping ∅, none⟩) := by
  have hnone : a.children.lookup g = none := (a.children.lookup_eq_none_iff g).mpr hnew
  refine ⟨fun _ => rfl, fun x h => ?_, Iff.rfl, fun x => ?_, fun x hx => ?_⟩
  · rw [AllGroup.members, AllGroup.table_setGroup]
    by_cases hx : x = g
    · subst hx
      simp [AllGroup.members, AllGroup.table, hnone]
    · simp [hx, AllGroup.members]
  · by_cases hx : x = g
    · subst hx
      simp [AllGroup.Bare, hnone]
    · simp [AllGroup.Bare, hx]
  · rw [AllGroup.setGroup_keys, mem_addKey]
    exact .inl hx

theorem ensureGroup_loads (a : AllGroup) (g : String) : ∃ a',
    (YamlConfig.dict (some a)).ensureGroup g = .ok (.dict (some a')) ∧ Loads [] [] a a' ∧
      (g = "all" ∨ g ∈ a'.children.keys) := by
  cases ensureGroup_cases a g with
  | inl hsame => exact ⟨a, hsame.2, Loads.refl a, hsame.1⟩
  | inr hadd =>
    refine ⟨_, hadd.2, setGroup_loads hadd.1, .inr ?_⟩
    rw [AllGroup.setGroup_keys, mem_addKey]
    exact .inr rfl

theorem ensureRequiredGroups_loads (gs : List String) (a : AllGroup) : ∃ a',
    (YamlConfig.dict (some a)).ensureRequiredGroups gs = .ok (.dict (some a')) ∧
      Loads [] [] a a' :=
  ensureRequiredGroups_rel Loads.refl (fun _ _ _ h h' => h.trans h')
    (fun _ _ hnew => setGroup_loads hnew) gs a

theorem ensureRoles_loads (o : Option AllGroup) : ∃ a,
    (YamlConfig.dict o).ensureRequiredGroups roles = .ok (.dict (some a)) ∧
      Loads [] [] (startOf o) a := by
  cases o with
  | none => exact ⟨initial, rfl, Loads.refl initial⟩
  | some a => exact ensureRequiredGroups_loads roles a

/-- A host of the group can be written and listed. -/
def Ready (a : AllGroup) (g : String) : Prop :=
  a.hosts ≠ .missing ∧ (g ≠ "all" → g ≠ "k8s_cluster:children" → ¬ a.Bare g)

theorem ready_congr {ws : List (String × Value)} {ms : List (String × String)} {a a' : AllGroup}
    (h : Loads ws ms a a') (g : String) : Ready a' g ↔ Ready a g := by
  rw [Ready, Ready, h.bare, ne_eq, ne_eq, h.missing]

/-- One round of the inner loop of load_file. -/
def loadHost (g : String) (a : AllGroup) (e : String × HostOptions) : Except PyError AllGroup := do
  let a ← a.addHostToGroup "all" e.1 (optstring e.2.ip)
  a.addHostToGroup g e.1 (.str "")

/-- What a host of the group writes to all.hosts: as a member of 'all' it is written once more. -/
def written (g : String) (e : String × HostOptions) : List (String × Value) :=
  (e.1, optstring e.2.ip) :: if g = "all" then [(e.1, .str "")] else []

def listed (g : String) (e : String × HostOptions) : List (String × String) :=
  if g = "all" ∨ g = "k8s_cluster:children" then [] else [(g, e.1)]

theorem loadHost_loads {a : AllGroup} {g : String} (hready : Ready a g)
    (hg : g = "all" ∨ g ∈ a.children.keys) (e : String × HostOptions) :
    ∃ a', loadHost g a e = .ok a' ∧ Loads (written g e) (listed g e) a a' := by
  obtain ⟨b, hb, hfirst⟩ := AllGroup.addHostToGroup_all hready.1 e.1 (optstring e.2.ip)
  rw [loadHost, hb, Except.bind_ok]
  have hreadyb := (ready_congr hfirst g).mpr hready
  by_cases hall : g = "all"
  · subst hall
    obtain ⟨a', ha', hsecond⟩ := AllGroup.addHostToGroup_all hreadyb.1 e.1 (.str "")
    exact ⟨a', ha', hfirst.trans hsecond⟩
  by_cases hchildren : g = "k8s_cluster:children"
  · subst hchildren
    exact ⟨b, rfl, hfirst⟩
  · obtain ⟨a', ha', hsecond⟩ := AllGroup.addHostToGroup_group hall hchildren
      (hfirst.keys (hg.resolve_left hall)) (hreadyb.2 hall hchildren) e.1 (.str "")
    refine ⟨a', ha', ?_⟩
    rw [written, listed, if_neg hall, if_neg (by simp [hall, hchildren])]
    exact hfirst.trans hsecond

theorem loadHost_error {a : AllGroup} {g : String} (hready : ¬ Ready a g)
    (e : String × HostOptions) : ∃ err, loadHost g a e = .error err := by
  rw [loadHost]
  by_cases hmissing : a.hosts = .missing
  · rw [AllGroup.addHostToGroup_all_missing hmissing]
    exact ⟨_, rfl⟩
  · obtain ⟨b, hb, hfirst⟩ := AllGroup.addHostToGroup_all hmissing e.1 (optstring e.2.ip)
    have hbare : g ≠ "all" ∧ g ≠ "k8s_cluster:children" ∧ a.Bare g := by
      by_contra hno
      refine hready ⟨hmissing, fun hall hchildren hbare => hno ⟨hall, hchildren, hbare⟩⟩
    rw [hb, Except.bind_ok, AllGroup.addHostToGroup_bare hbare.1 hbare.2.1
      ((hfirst.bare g).mpr hbare.2.2)]
    exact ⟨_, rfl⟩

theorem loadHosts_loads {g : String} (es : List (String × HostOptions)) {a : AllGroup}
    (hready : es ≠ [] → Ready a g) (hg : g = "all" ∨ g ∈ a.children.keys) :
    ∃ a', es.foldlM (loadHost g) a = .ok a' ∧
      Loads (es.flatMap (written g)) (es.flatMap (listed g)) a a' := by
  induction es generalizing a with
  | nil => exact ⟨a, rfl, Loads.refl a⟩
  | cons e es ih =>
    have hnow := hready (by simp)
    obtain ⟨b, hb, hfirst⟩ := loadHost_loads hnow hg e
    obtain ⟨a', ha', hrest⟩ := ih (fun _ => (ready_congr hfirst g).mpr hnow)
      (hg.imp id fun hm => hfirst.keys hm)
    exact ⟨a', by rw [List.foldlM_cons, hb, Except.bind_ok, ha'], hfirst.trans hrest⟩

/-- The hosts of a group of the data. -/
def groupWrites (g : DataGroup) : List (String × Value) := g.2.entries.flatMap (written g.1)

def groupLists (g : DataGroup) : List (String × String) := g.2.entries.flatMap (listed g.1)

theorem loadGroup_eq (a : AllGroup) (g : DataGroup) : ∃ b, Loads [] [] a b ∧
    (g.1 = "all" ∨ g.1 ∈ b.children.keys) ∧
      loadGroup a g.1 (hostsJson g.2) = g.2.entries.foldlM (loadHost g.1) b := by
  obtain ⟨b, hb, hloads, hg⟩ := ensureGroup_loads a g.1
  have hensure : (YamlConfig.dict (some a)).ensureRequiredGroups [g.1] = .ok (.dict (some b)) := by
    rw [YamlConfig.ensureRequiredGroups, List.foldlM_cons, hb]
    rfl
  refine ⟨b, hloads, hg, ?_⟩
  have hget : ∀ o : HostOptions, Value.getIp (.obj o.fields) = .ok o.ip := by
    intro o
    rw [Value.getIp, o.ip_eq]
  rw [loadGroup, hensure, Except.bind_ok, YamlConfig.getAll, Except.bind_ok, hostsJson, Value.items,
    Except.bind_ok, List.foldlM_map]
  simp only [hget, Except.bind_ok]
  rfl

theorem loadGroup_loads {a : AllGroup} {g : DataGroup} (hready : g.2.entries ≠ [] → Ready a g.1) :
    ∃ a', loadGroup a g.1 (hostsJson g.2) = .ok a' ∧ Loads (groupWrites g) (groupLists g) a a' := by
  obtain ⟨b, hfirst, hg, heq⟩ := loadGroup_eq a g
  obtain ⟨a', ha', hrest⟩ := loadHosts_loads g.2.entries
    (fun hne => (ready_congr hfirst g.1).mpr (hready hne)) hg
  exact ⟨a', heq.trans ha', hfirst.trans hrest⟩

theorem ready_of_loadGroup {a a' : AllGroup} {g : DataGroup}
    (h : loadGroup a g.1 (hostsJson g.2) = .ok a') (hne : g.2.entries ≠ []) : Ready a g.1 := by
  obtain ⟨b, hfirst, -, heq⟩ := loadGroup_eq a g
  by_contra hno
  obtain ⟨e, es, hes⟩ := List.exists_cons_of_ne_nil hne
  obtain ⟨err, herr⟩ := loadHost_error (fun hb => hno ((ready_congr hfirst g.1).mp hb)) e
  rw [heq, hes, List.foldlM_cons, herr] at h
  cases h

/-- The loop over the data returns exactly where each group with hosts can take them. -/
theorem loadGroups_loads {l : List DataGroup} {a : AllGroup}
    (hready : ∀ g ∈ l, g.2.entries ≠ [] → Ready a g.1) :
    ∃ a', l.foldlM (fun a g => loadGroup a g.1 (hostsJson g.2)) a = .ok a' ∧
      Loads (l.flatMap groupWrites) (l.flatMap groupLists) a a' := by
  induction l generalizing a with
  | nil => exact ⟨a, rfl, Loads.refl a⟩
  | cons g l ih =>
    obtain ⟨b, hb, hfirst⟩ := loadGroup_loads (hready g (by simp))
    obtain ⟨a', ha', hrest⟩ := ih fun x hx hne =>
      (ready_congr hfirst x.1).mpr (hready x (List.mem_cons_of_mem g hx) hne)
    exact ⟨a', by rw [List.foldlM_cons, hb, Except.bind_ok, ha'], hfirst.trans hrest⟩

theorem ready_of_loadGroups {l : List DataGroup} {a a' : AllGroup}
    (h : l.foldlM (fun a g => loadGroup a g.1 (hostsJson g.2)) a = .ok a') :
    ∀ g ∈ l, g.2.entries ≠ [] → Ready a g.1 := by
  induction l generalizing a with
  | nil => simp
  | cons g l ih =>
    rw [List.foldlM_cons] at h
    obtain ⟨b, hb, h⟩ := Runs.bind_eq_ok h
    have hnow := ready_of_loadGroup hb
    obtain ⟨b', hb', hfirst⟩ := loadGroup_loads hnow
    obtain rfl := Except.ok.inj (hb.symm.trans hb')
    refine List.forall_mem_cons.mpr ⟨hnow, fun x hx hne => ?_⟩
    exact (ready_congr hfirst x.1).mp (ih h x hx hne)

end Groups
section Writes
variable {h : String} {ip : Value}

theorem lookup_written {g : String} {es : List (String × HostOptions)}
    (hip : ∀ e ∈ es, e.1 = h → e.2.ip = ip) : (es.flatMap (written g)).reverse.lookup h =
      if h ∈ es.map Prod.fst then some (if g = "all" then .str "" else optstring ip) else none := by
  induction es with
  | nil => rfl
  | cons e es ih =>
    have hone : (written g e).reverse.lookup h =
        if h = e.1 then some (if g = "all" then .str "" else optstring ip) else none := by
      rw [written]
      by_cases hh : h = e.1
      · by_cases hall : g = "all"
        · simp [hall, hh]
        · simp [hall, hh, hip e (by simp) hh.symm]
      · by_cases hall : g = "all" <;> simp [hall, hh, lookup_cons_if]
    rw [List.flatMap_cons, List.reverse_append, List.lookup_append,
      ih fun x hx => hip x (List.mem_cons_of_mem e hx), hone, List.map_cons]
    by_cases hin : h ∈ es.map Prod.fst
    · simp only [hin, if_true, Option.some_or, List.mem_cons, or_true]
    · simp only [hin, if_false, Option.none_or, List.mem_cons, or_false]

/-- Where a host is in 'all', it is in a group that comes later as well. -/
def ListedLater (l : List DataGroup) (h : String) : Prop :=
  ∀ pre g post, l = pre ++ g :: post → g.1 = "all" → h ∈ g.2.keys → ∃ g' ∈ post, h ∈ g'.2.keys

theorem listedLater_cons_iff (g : DataGroup) (l : List DataGroup) : ListedLater (g :: l) h ↔
    (g.1 = "all" → h ∈ g.2.keys → ∃ g' ∈ l, h ∈ g'.2.keys) ∧ ListedLater l h := by
  constructor
  · intro hall
    refine ⟨hall [] g l rfl, fun pre x post hl => ?_⟩
    exact hall (g :: pre) x post (by rw [hl, List.cons_append])
  · intro hboth pre x post hl
    cases pre with
    | nil =>
      obtain ⟨rfl, rfl⟩ := List.cons.inj hl
      exact hboth.1
    | cons y pre => exact hboth.2 pre x post (List.cons.inj hl).2

theorem fst_of_mem_written {g : String} {e : String × HostOptions} {w : String × Value}
    (hw : w ∈ written g e) : w.1 = e.1 := by
  rw [written] at hw
  split at hw
  · simp only [List.mem_cons, List.not_mem_nil, or_false] at hw
    cases hw with
    | inl hw => rw [hw]
    | inr hw => rw [hw]
  · rw [List.mem_singleton.mp hw]

theorem isSome_lookup_groupWrites (l : List DataGroup) (h : String) :
    ((l.flatMap groupWrites).reverse.lookup h).isSome ↔ ∃ g ∈ l, h ∈ g.2.keys := by
  rw [List.lookup_isSome_iff]
  constructor
  · intro hex
    obtain ⟨w, hw, hh⟩ := hex
    obtain ⟨g, hg, hw⟩ := List.mem_flatMap.mp (List.mem_reverse.mp hw)
    obtain ⟨e, he, hw⟩ := List.mem_flatMap.mp hw
    have heq : h = e.1 := (eq_of_beq hh).trans (fst_of_mem_written hw)
    exact ⟨g, hg, heq ▸ List.mem_map_of_mem he⟩
  · intro hex
    obtain ⟨g, hg, hk⟩ := hex
    obtain ⟨e, he, rfl⟩ := List.mem_map.mp hk
    refine ⟨(e.1, optstring e.2.ip), ?_, by simp⟩
    rw [List.mem_reverse, List.mem_flatMap]
    exact ⟨g, hg, List.mem_flatMap.mpr ⟨e, he, List.mem_cons_self⟩⟩

/-- The last write to a host of the data is its addresses, unless 'all' is the last group it
is in. -/
theorem lookup_groupWrites_iff {l : List DataGroup}
    (hip : ∀ g ∈ l, ∀ e ∈ g.2.entries, e.1 = h → e.2.ip = ip) (hin : ∃ g ∈ l, h ∈ g.2.keys) :
    (l.flatMap groupWrites).reverse.lookup h = some (optstring ip) ↔ ListedLater l h := by
  induction l with
  | nil => simp at hin
  | cons g l ih =>
    have hrest := fun x hx => hip x (List.mem_cons_of_mem g hx)
    have hhere : (groupWrites g).reverse.lookup h = if h ∈ g.2.keys then
        some (if g.1 = "all" then .str "" else optstring ip) else none :=
      lookup_written (hip g (by simp))
    rw [List.flatMap_cons, List.reverse_append, List.lookup_append, listedLater_cons_iff, hhere]
    by_cases hlater : ∃ g' ∈ l, h ∈ g'.2.keys
    · obtain ⟨v, hv⟩ := Option.isSome_iff_exists.mp ((isSome_lookup_groupWrites l h).mpr hlater)
      rw [← ih hrest hlater, hv, Option.some_or]
      simp [hlater]
    · have hno : ∀ g' ∈ l, h ∉ g'.2.keys := fun x hx hm => hlater ⟨x, hx, hm⟩
      have hnone : (l.flatMap groupWrites).reverse.lookup h = none :=
        Option.not_isSome_iff_eq_none.mp fun hs => hlater ((isSome_lookup_groupWrites l h).mp hs)
      have hg : h ∈ g.2.keys := by
        obtain ⟨x, hx, hm⟩ := hin
        cases List.mem_cons.mp hx with
        | inl hxg => exact hxg ▸ hm
        | inr hxl => exact absurd hm (hno x hxl)
      have hvacuous : ListedLater l h := fun pre x post hl _ hm =>
        absurd hm (hno x (by simp [hl]))
      rw [hnone, Option.none_or, if_pos hg]
      by_cases hall : g.1 = "all"
      · simp [hall, hlater, hg, optstring]
      · simp [hall, hvacuous]

theorem mem_groupLists_iff {data : InventoryData} {g : DataGroup} (hg : g ∈ data.groups.entries)
    (h : String) : (g.1, h) ∈ data.groups.entries.flatMap groupLists ↔
      g.1 ≠ "all" ∧ g.1 ≠ "k8s_cluster:children" ∧ h ∈ g.2.keys := by
  constructor
  · intro hm
    obtain ⟨x, hx, hm⟩ := List.mem_flatMap.mp hm
    obtain ⟨e, he, hm⟩ := List.mem_flatMap.mp hm
    rw [listed] at hm
    split at hm
    · cases hm
    case isFalse hno =>
      obtain ⟨hgx, rfl⟩ := Prod.mk.inj (List.mem_singleton.mp hm)
      obtain ⟨hall, hchildren⟩ := not_or.mp hno
      have hsame : g.2 = x.2 := by
        have hlg := (data.groups.lookup_eq_some_iff g.1 g.2).mpr hg
        have hlx := (data.groups.lookup_eq_some_iff x.1 x.2).mpr hx
        rw [hgx, hlx] at hlg
        exact (Option.some.inj hlg).symm
      rw [hgx, hsame]
      exact ⟨hall, hchildren, List.mem_map_of_mem he⟩
  · intro hall
    obtain ⟨hall, hchildren, hk⟩ := hall
    obtain ⟨e, he, rfl⟩ := List.mem_map.mp hk
    rw [List.mem_flatMap]
    refine ⟨g, hg, List.mem_flatMap.mpr ⟨e, he, ?_⟩⟩
    rw [listed, if_neg (by simp [hall, hchildren])]
    exact List.mem_singleton_self _

end Writes

section Import

/-- The hosts of the data have their addresses in all.hosts, the others are as they were, and
each group of the data lists its hosts beside those it had. -/
structure Imported (o : Option AllGroup) (data : InventoryData) (a : AllGroup) : Prop where
  addresses : ∀ g ∈ data.groups.entries, ∀ e ∈ g.2.entries, a.entry e.1 = some (optstring e.2.ip)
  others : ∀ h, (∀ g ∈ data.groups.entries, h ∉ g.2.keys) → a.entry h = (startOf o).entry h
  groups : ∀ g ∈ data.groups.entries, g.1 ≠ "all" →
    ∀ h, h ∈ a.members g.1 ↔ h ∈ (startOf o).members g.1 ∨ h ∈ g.2.keys

/-- What the data may have where the configuration has all.hosts and its groups as they are. -/
structure Importable (o : Option AllGroup) (data : InventoryData) : Prop where
  hosts : ∀ g ∈ data.groups.entries, g.2.entries ≠ [] → (startOf o).hosts ≠ .missing
  groups : ∀ g ∈ data.groups.entries, g.2.entries ≠ [] → g.1 ≠ "all" →
    g.1 ≠ "k8s_cluster:children" → g.1 ≠ "k8s_cluster" ∧ ¬ (startOf o).Bare g.1
  cluster : ∀ g ∈ data.groups.entries, g.1 = "k8s_cluster" → (startOf o).members g.1 = []
  children : ∀ g ∈ data.groups.entries, g.1 = "k8s_cluster:children" →
    g.2.keys ⊆ (startOf o).members g.1
  later : ∀ h, ListedLater data.groups.entries h

theorem loadOne_json {o : Option AllGroup} (data : InventoryData) (name : String) :
    ∃ b, Loads [] [] (startOf o) b ∧ loadOne (.dict o) name (.data data.json) =
      data.groups.entries.foldlM (fun a g => loadGroup a g.1 (hostsJson g.2)) b.setK8sCluster := by
  obtain ⟨b, hb, hloads⟩ := ensureRoles_loads o
  refine ⟨b, hloads, ?_⟩
  simp only [loadOne, Except.bind_ok, hb, YamlConfig.getAll, InventoryData.json, Value.items,
    List.foldlM_map]

theorem members_setK8sCluster (a : AllGroup) (x : String) :
    a.setK8sCluster.members x = if x = "k8s_cluster" then [] else a.members x := by
  by_cases hx : x = "k8s_cluster" <;> simp [AllGroup.setK8sCluster, AllGroup.members,
    AllGroup.table, hx]

theorem bare_setK8sCluster (a : AllGroup) (x : String) :
    a.setK8sCluster.Bare x ↔ x = "k8s_cluster" ∨ a.Bare x := by
  by_cases hx : x = "k8s_cluster" <;> simp [AllGroup.setK8sCluster, AllGroup.Bare, hx]

theorem addresses_iff {data : InventoryData} {ms : List (String × String)} {b a : AllGroup}
    (hloads : Loads (data.groups.entries.flatMap groupWrites) ms b a) :
    (∀ g ∈ data.groups.entries, ∀ e ∈ g.2.entries, a.entry e.1 = some (optstring e.2.ip)) ↔
      ∀ h, ListedLater data.groups.entries h := by
  have hone : ∀ g ∈ data.groups.entries, ∀ e ∈ g.2.entries,
      (a.entry e.1 = some (optstring e.2.ip) ↔ ListedLater data.groups.entries e.1) := by
    intro g hg e he
    have hin : ∃ g ∈ data.groups.entries, e.1 ∈ g.2.keys := ⟨g, hg, List.mem_map_of_mem he⟩
    rw [← lookup_groupWrites_iff (fun x hx y hy heq => data.oneIp x hx g hg y hy e he heq) hin,
      hloads.entries]
    obtain ⟨v, hv⟩ := Option.isSome_iff_exists.mp
      ((isSome_lookup_groupWrites data.groups.entries e.1).mpr hin)
    rw [hv, Option.some_or]
  constructor
  · intro hall h pre g post hl hname hk
    obtain ⟨e, he, rfl⟩ := List.mem_map.mp hk
    have hg : g ∈ data.groups.entries := by rw [hl]; simp
    exact (hone g hg e he).mp (hall g hg e he) pre g post hl hname hk
  · intro hlater g hg e he
    exact (hone g hg e he).mpr (hlater e.1)

/-- Beside the groups whose names are special, every group lists what it should. -/
theorem groups_iff {data : InventoryData} {ws : List (String × Value)} {b a c : AllGroup}
    (hloads : Loads ws (data.groups.entries.flatMap groupLists) b.setK8sCluster a)
    (hb : ∀ x h, h ∈ b.members x ↔ h ∈ c.members x)
    (hempty : ∀ g ∈ data.groups.entries, g.1 = "k8s_cluster" → g.2.keys = []) :
    (∀ g ∈ data.groups.entries, g.1 ≠ "all" →
      ∀ h, h ∈ a.members g.1 ↔ h ∈ c.members g.1 ∨ h ∈ g.2.keys) ↔
    (∀ g ∈ data.groups.entries, g.1 = "k8s_cluster" → c.members g.1 = []) ∧
      ∀ g ∈ data.groups.entries, g.1 = "k8s_cluster:children" → g.2.keys ⊆ c.members g.1 := by
  have hlists : ∀ g ∈ data.groups.entries, ∀ h, h ∈ a.members g.1 ↔
      h ∈ b.setK8sCluster.members g.1 ∨
        (g.1 ≠ "all" ∧ g.1 ≠ "k8s_cluster:children" ∧ h ∈ g.2.keys) := by
    intro g hg h
    rw [hloads.members, mem_groupLists_iff hg]
  constructor
  · intro hall
    refine ⟨fun g hg hname => ?_, fun g hg hname h hk => ?_⟩
    · refine List.eq_nil_iff_forall_not_mem.mpr fun h hm => ?_
      have hin := (hall g hg (by rw [hname]; decide) h).mpr (.inl hm)
      rw [hlists g hg, members_setK8sCluster, if_pos hname, hempty g hg hname] at hin
      simp at hin
    · have hin := (hall g hg (by rw [hname]; decide) h).mpr (.inr hk)
      rw [hlists g hg, members_setK8sCluster, if_neg (by rw [hname]; decide), hb] at hin
      exact hin.resolve_right fun hno => hno.2.1 hname
  · intro hboth g hg hall h
    rw [hlists g hg, members_setK8sCluster]
    by_cases hcluster : g.1 = "k8s_cluster"
    · rw [if_pos hcluster, hempty g hg hcluster, hboth.1 g hg hcluster]
      simp
    rw [if_neg hcluster, hb]
    by_cases hchildren : g.1 = "k8s_cluster:children"
    · have hsub := hboth.2 g hg hchildren
      constructor
      · exact fun hin => hin.imp id fun hno => absurd hchildren hno.2.1
      · exact fun hin => .inl (hin.elim id fun hk => hsub hk)
    · simp [hall, hchildren]

theorem ready_setK8sCluster_iff {o : Option AllGroup} {b : AllGroup}
    (hstart : Loads [] [] (startOf o) b) (g : String) : Ready b.setK8sCluster g ↔
      (startOf o).hosts ≠ .missing ∧ (g ≠ "all" → g ≠ "k8s_cluster:children" →
        g ≠ "k8s_cluster" ∧ ¬ (startOf o).Bare g) := by
  have hhosts : b.setK8sCluster.hosts ≠ .missing ↔ (startOf o).hosts ≠ .missing :=
    not_congr hstart.missing
  rw [Ready, bare_setK8sCluster, hstart.bare, not_or, hhosts]

/-- Once the loop returns, k8s_cluster has no hosts in the data. -/
theorem keys_eq_nil_of_ready {data : InventoryData} {b : AllGroup}
    (hready : ∀ g ∈ data.groups.entries, g.2.entries ≠ [] → Ready b.setK8sCluster g.1) :
    ∀ g ∈ data.groups.entries, g.1 = "k8s_cluster" → g.2.keys = [] := by
  intro g hg hname
  by_contra hne
  have hnow := hready g hg fun hnil => hne (by rw [OrderedDict.keys, hnil]; rfl)
  refine hnow.2 (by rw [hname]; decide) (by rw [hname]; decide) ?_
  rw [bare_setK8sCluster]
  exact .inl hname

/-- load_file imports the data exactly where it is importable. -/
theorem imported_iff (o : Option AllGroup) (data : InventoryData) (name : String) :
    (∃ a, loadOne (.dict o) name (.data data.json) = .ok a ∧ Imported o data a) ↔
      Importable o data := by
  obtain ⟨b, hstart, heq⟩ := loadOne_json (o := o) data name
  have hmembers : ∀ x h, h ∈ b.members x ↔ h ∈ (startOf o).members x := by
    intro x h
    rw [hstart.members]
    simp
  rw [heq]
  constructor
  · intro hex
    obtain ⟨a, hok, himported⟩ := hex
    have hall := ready_of_loadGroups hok
    obtain ⟨a', hok', hloads⟩ := loadGroups_loads hall
    obtain rfl := Except.ok.inj (hok.symm.trans hok')
    have hgroups := (groups_iff hloads hmembers (keys_eq_nil_of_ready hall)).mp himported.groups
    have hready := fun g hg hne => (ready_setK8sCluster_iff hstart g.1).mp (hall g hg hne)
    exact ⟨fun g hg hne => (hready g hg hne).1, fun g hg hne => (hready g hg hne).2, hgroups.1,
      hgroups.2, (addresses_iff hloads).mp himported.addresses⟩
  · intro h
    have hall : ∀ g ∈ data.groups.entries, g.2.entries ≠ [] → Ready b.setK8sCluster g.1 :=
      fun g hg hne => (ready_setK8sCluster_iff hstart g.1).mpr ⟨h.hosts g hg hne, h.groups g hg hne⟩
    obtain ⟨a, hok, hloads⟩ := loadGroups_loads hall
    refine ⟨a, hok, (addresses_iff hloads).mpr h.later, fun x hx => ?_,
      (groups_iff hloads hmembers (keys_eq_nil_of_ready hall)).mpr ⟨h.cluster, h.children⟩⟩
    have hnone : (data.groups.entries.flatMap groupWrites).reverse.lookup x = none := by
      rw [← Option.not_isSome_iff_eq_none, isSome_lookup_groupWrites]
      exact fun hex => hex.elim fun g hg => hx g hg.1 hg.2
    rw [hloads.entries, hnone, Option.none_or]
    exact hstart.entries x

/-- A host that only the group 'all' has. -/
def onlyAll : InventoryData where
  groups := (∅ : OrderedDict String (OrderedDict String HostOptions)).setItem "all"
    ((∅ : OrderedDict String HostOptions).setItem "node1" ⟨[("ip", .str "10.0.0.1")], _, rfl⟩)
  oneIp g hg g' hg' e he e' he' _ := by
    obtain rfl := List.mem_singleton.mp hg
    obtain rfl := List.mem_singleton.mp hg'
    obtain rfl := List.mem_singleton.mp he
    obtain rfl := List.mem_singleton.mp he'
    rfl

/-- The host is left without its addresses. -/
theorem onlyAll_not_imported :
    ¬ ∃ a, loadOne (.dict none) "hosts.json" (.data onlyAll.json) = .ok a ∧ Imported none onlyAll a := by
  intro h
  obtain ⟨a, hok, himported⟩ := h
  have haddress := himported.addresses _ (List.mem_singleton_self _) _ (List.mem_singleton_self _)
  have hstr : ((loadOne (.dict none) "hosts.json" (.data onlyAll.json)).toOption.bind
      (·.entry "node1")).map (Value.isStr "") = some true := by decide +kernel
  rw [hok] at hstr
  simp only [Except.toOption, Option.bind_some] at hstr
  rw [haddress] at hstr
  cases hstr

end Import
section Files
variable {Text : Type} (y : Yaml Text) (files : String → JsonFile)

/-- The configuration in memory after files have been applied, if any were. -/
def current (c : YamlConfig) : Option AllGroup → YamlConfig
  | none => c
  | some a => .dict (some a)

/-- The files parsed and applied one after the other, without writing. -/
def applyFiles (c : YamlConfig) (names : List String) : Except PyError (Option AllGroup) :=
  names.foldlM (fun o name => (loadOne (current c o) name (files name)).map some) none

/-- CONFIG_FILE after the last write, or as it was. -/
def contentAfter (stored : Option Text) (o : Option AllGroup) : Option Text :=
  (o.map y.dump).or stored

theorem loadFiles_spec (c : YamlConfig) (names done : List String) (stored : Option Text)
    (o : Option AllGroup) (hdone : applyFiles files c done = .ok o) :
    (∀ e, (loadFiles y files names (current c o) (contentAfter y stored o)).1 = .error e →
      ∃ applied failed rest o', names = applied ++ failed :: rest ∧
        applyFiles files c (done ++ applied) = .ok o' ∧
        loadOne (current c o') failed (files failed) = .error e ∧
        (loadFiles y files names (current c o) (contentAfter y stored o)).2 =
          contentAfter y stored o') ∧
    (∀ out, (loadFiles y files names (current c o) (contentAfter y stored o)).1 = .ok out →
      ∃ o', applyFiles files c (done ++ names) = .ok o' ∧
        (loadFiles y files names (current c o) (contentAfter y stored o)).2 =
          contentAfter y stored o') := by
  induction names generalizing done o with
  | nil =>
    refine ⟨fun e he => (nomatch he), fun out _ => ⟨o, ?_, rfl⟩⟩
    rwa [List.append_nil]
  | cons name names ih =>
    rw [loadFiles]
    cases hone : loadOne (current c o) name (files name) with
    | error e =>
      refine ⟨fun e' he => ⟨[], name, names, o, rfl, ?_, ?_, rfl⟩, fun out ho => (nomatch ho)⟩
      · rwa [List.append_nil]
      · obtain rfl : e = e' := Except.error.inj he
        exact hone
    | ok a =>
      have hnext : applyFiles files c (done ++ [name]) = .ok (some a) := by
        rw [applyFiles, List.foldlM_append] at *
        rw [hdone, Except.bind_ok, List.foldlM_cons, hone]
        rfl
      obtain ⟨herror, hok⟩ := ih (done ++ [name]) (some a) hnext
      refine ⟨fun e he => ?_, fun out ho => ?_⟩
      · obtain ⟨applied, failed, rest, o', hnames, happlied, hfails, hcontent⟩ := herror e he
        refine ⟨name :: applied, failed, rest, o', by rw [hnames, List.cons_append], ?_, hfails,
          hcontent⟩
        rwa [List.append_assoc] at happlied
      · obtain ⟨o', happlied, hcontent⟩ := hok out ho
        refine ⟨o', ?_, hcontent⟩
        rwa [List.append_assoc] at happlied

/-- `load` writes after each file: where it raises, CONFIG_FILE holds the configuration with the
files before the failing one and nothing of that, or what it held where there is none. -/
theorem load_content (c : YamlConfig) (names : List String) (stored : Option Text) :
    (∀ e, (parseCommand y files "load" names c stored).1 = .error e →
      (names = [] ∧ (parseCommand y files "load" names c stored).2 = stored) ∨
      ∃ applied failed rest o, names = applied ++ failed :: rest ∧
        applyFiles files c applied = .ok o ∧
        loadOne (current c o) failed (files failed) = .error e ∧
        (parseCommand y files "load" names c stored).2 = contentAfter y stored o) ∧
    ∀ out, (parseCommand y files "load" names c stored).1 = .ok out →
      ∃ o, applyFiles files c names = .ok o ∧
        (parseCommand y files "load" names c stored).2 = contentAfter y stored o := by
  by_cases hnames : names = []
  · subst hnames
    exact ⟨fun e _ => .inl ⟨rfl, rfl⟩, fun out ho => (nomatch ho)⟩
  · have hload : parseCommand y files "load" names c stored = loadFiles y files names c stored := by
      simp [parseCommand, hnames]
    obtain ⟨herror, hok⟩ := loadFiles_spec y files c names [] stored none rfl
    rw [hload]
    exact ⟨fun e he => .inr (herror e he), hok⟩

end Files

/-- A file system with one good input file. -/
def goodFile : String → JsonFile := fun name =>
  if name = "good.json" then .data (.obj []) else .invalid

def configInMemory : Yaml AllGroup := ⟨id, fun a => [.mapping a], fun _ => rfl⟩

/-- The good file is written although the next one fails. -/
theorem first_file_written : ¬ ∀ (files : String → JsonFile) (names : List String)
    (c : YamlConfig) (stored : Option AllGroup) (e : PyError),
    (parseCommand configInMemory files "load" names c stored).1 = .error e →
      (parseCommand configInMemory files "load" names c stored).2 = stored := by
  intro h
  have hsame := h goodFile ["good.json", "bad.json"] (.dict none) none
    (.exception ["Cannot read %s as JSON, or CSV", "bad.json"]) rfl
  have hwritten : (parseCommand configInMemory goodFile "load" ["good.json", "bad.json"]
      (.dict none) none).2.isSome = true := by decide
  rw [hsame] at hwritten
  cases hwritten

end Kubespray.Inventory

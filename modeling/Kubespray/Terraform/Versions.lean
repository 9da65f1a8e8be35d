import Kubespray.Terraform.Hosts
import Mathlib.Data.List.Forall2

/-! The two versions of the state: when the resources of one of version 4 give the same hosts and
associations as they do in version 3. -/
namespace Kubespray.Terraform

/-- The type up to its first dot, which is the whole type for any that Terraform has. -/
def firstPart (type : String) : String := String.ofList (type.toList.takeWhile (· ≠ '.'))

section Keys
variable (py : Python)

/-- The key of an instance in version 3. -/
def v3Key (r : ResourceV4) (i : Instance) : String :=
  let key := r.type ++ "." ++ r.name ++
    match i.indexKey with
    | none => ""
    | some index => "." ++ py.str index
  match r.mode with
  | .managed => key
  | .data => "data." ++ key

theorem v3Key_managed (r : ResourceV4) (i : Instance) (hm : r.mode = .managed) :
    v3Key py r i = instanceKey py r i := by
  rw [v3Key, instanceKey, hm]
  cases i.indexKey with
  | none => simp
  | some index => simp [String.append_assoc]

theorem itemType_append (moduleName type rest : String) (attributes : Attrs) :
    itemType ⟨moduleName, type ++ "." ++ rest, attributes⟩ = some (firstPart type) := by
  have hfirst := congrArg (Option.map String.ofList)
    (splitOnce_fst_append '.' type.toList rest.toList)
  rw [Option.map_map] at hfirst
  simpa [itemType, splitKey, firstPart, Function.comp_def] using hfirst

theorem itemType_instanceKey (moduleName : String) (r : ResourceV4) (i : Instance)
    (attributes : Attrs) :
    itemType ⟨moduleName, instanceKey py r i, attributes⟩ = some (firstPart r.type) := by
  rw [instanceKey]
  cases i.indexKey with
  | none => exact itemType_append moduleName r.type r.name attributes
  | some index =>
    have hkey : r.type ++ "." ++ r.name ++ "." ++ py.str index =
        r.type ++ "." ++ (r.name ++ "." ++ py.str index) := by simp only [String.append_assoc]
    simp only [hkey]
    exact itemType_append moduleName r.type _ attributes

theorem itemType_data (moduleName : String) (r : ResourceV4) (i : Instance) (attributes : Attrs)
    (hd : r.mode = .data) : itemType ⟨moduleName, v3Key py r i, attributes⟩ = some "data" := by
  rw [v3Key, hd]
  exact itemType_append moduleName "data" _ attributes

end Keys

section Rounds
variable {β : Type} (parserOf : String → Option (Attrs → Except PyError β))

/-- One round of a pass over the resources. -/
def round (item : Item) : Except PyError (Option β) := do
  let type ← resourceType item.key
  match parserOf type with
  | none => .ok none
  | some parser => (parser item.attributes).map some

theorem hostOf_eq_round (py : Python) : hostOf py = round (parsers py) := by
  funext item
  rw [hostOf, round]
  cases resourceType item.key with
  | error e => rfl
  | ok type => cases hp : parsers py type <;> simp [hp, bind, Except.bind]

def ipParser (type : String) : Option (Attrs → Except PyError (String × Json)) :=
  if type = floatingIpType then some openstackFloatingIps else none

theorem ipOf_eq_round : ipOf = round ipParser := by
  funext item
  rw [ipOf, round]
  cases resourceType item.key with
  | error e => rfl
  | ok type => by_cases hf : type = floatingIpType <;> simp [ipParser, hf, bind, Except.bind]

variable (item : Item) (type : String) (ht : itemType item = some type)
include ht

theorem round_eq_none_iff : round parserOf item = .ok none ↔ parserOf type = none := by
  rw [round, (resourceType_eq_ok_iff item type).mpr ht]
  cases hp : parserOf type with
  | none => simp [bind, Except.bind, hp]
  | some parser => cases hx : parser item.attributes <;> simp [bind, Except.bind, hp, hx, Except.map]

theorem round_fails_iff : (round parserOf item).toOption = none ↔
    ∃ parser, parserOf type = some parser ∧ (parser item.attributes).toOption = none := by
  rw [round, (resourceType_eq_ok_iff item type).mpr ht]
  cases hp : parserOf type with
  | none => simp [bind, Except.bind, hp, Except.toOption]
  | some parser =>
    cases hx : parser item.attributes <;>
      simp [bind, Except.bind, hp, hx, Except.map, Except.toOption]

end Rounds

section Versions
variable (py : Python) (random : Nat → Nat) (resources : List ResourceV4)

def instancesOf : List (ResourceV4 × Instance) := resources.flatMap fun r => r.instances.map (r, ·)

/-- What is read of the state of version 4. -/
def itemsV4 : Generator PyError Item := iterresources py random [.v4 resources] 0

/-- What is read of the state of version 3. -/
def itemsV3 (modules : List Module) : Generator PyError Item :=
  iterresources py random [.v3 modules] 0

/-- Each instance with the item that is read for it in version 4. -/
def converted : List ((ResourceV4 × Instance) × Item) :=
  (instancesOf resources).zip (itemsV4 py random resources).items

/-- The state of version 3 with the same instances, under whatever modules these are. -/
structure V3Of (modules : List Module) : Prop where
  converts : (itemsV4 py random resources).raises = none
  paths : ∀ m ∈ modules, m.path ≠ []
  entries : (modules.flatMap fun m => m.resources.entries) =
    (converted py random resources).map fun c => (v3Key py c.1.1 c.1.2, c.2.attributes)

theorem itemsV4_eq : itemsV4 py random resources =
    (iterInstances py random (instancesOf resources) 0).1 := by
  change Generator.append (iterInstances py random (instancesOf resources) 0).1 ⟨[], none⟩ = _
  rw [Generator.append]
  cases hr : (iterInstances py random (instancesOf resources) 0).1.raises <;> simp [← hr]

/-- The item that is read for an instance: its key, and its attributes as
convert_to_v3_structure gives them. -/
structure ReadOf (p : ResourceV4 × Instance) (item : Item) : Prop where
  key : item.key = instanceKey py p.1 p.2
  attributes : ∃ n r, convertToV3Structure random (.obj p.2.attributes.entries) "" n = .ok r ∧
    item.attributes = r.1

theorem iterInstances_spec (l : List (ResourceV4 × Instance)) (n : Nat)
    (h : (iterInstances py random l n).1.raises = none) :
    List.Forall₂ (ReadOf py random) l (iterInstances py random l n).1.items := by
  induction l generalizing n with
  | nil => exact .nil
  | cons p l ih =>
    obtain ⟨r, i⟩ := p
    rw [iterInstances] at h ⊢
    cases hc : convertToV3Structure random (.obj i.attributes.entries) "" n with
    | error e => simp [hc] at h
    | ok c =>
      simp only [hc] at h ⊢
      exact .cons ⟨rfl, n, c, hc, rfl⟩ (ih c.2 h)

theorem itemsV3_of_paths (modules : List Module) (h : ∀ m ∈ modules, m.path ≠ []) :
    (itemsV3 py random modules).raises = none ∧
      (itemsV3 py random modules).items.map (fun item => (item.key, item.attributes)) =
        modules.flatMap fun m => m.resources.entries := by
  have hmodules : ∀ ms : List Module, (∀ m ∈ ms, m.path ≠ []) → (iterModules ms).raises = none ∧
      (iterModules ms).items.map (fun item => (item.key, item.attributes)) =
        ms.flatMap fun m => m.resources.entries := by
    intro ms hms
    induction ms with
    | nil => exact ⟨rfl, rfl⟩
    | cons m ms ih =>
      obtain ⟨hnone, hitems⟩ := ih fun x hx => hms x (List.mem_cons_of_mem m hx)
      obtain ⟨name, hname⟩ := Option.isSome_iff_exists.mp
        (List.getLast?_isSome.mpr (hms m (by simp)))
      rw [iterModules, hname]
      refine ⟨by simpa [Generator.append, Generator.ofList] using hnone, ?_⟩
      simp [Generator.append, Generator.ofList, hitems, Function.comp_def]
  obtain ⟨hnone, hitems⟩ := hmodules modules h
  have hread : itemsV3 py random modules = iterModules modules := by
    change Generator.append (iterModules modules) ⟨[], none⟩ = _
    rw [Generator.append, hnone]
    simp [← hnone]
  rw [hread]
  exact ⟨hnone, hitems⟩

/-- The items of both versions as these are made of the instances. -/
theorem converted_spec (h : (itemsV4 py random resources).raises = none) :
    (converted py random resources).map Prod.snd = (itemsV4 py random resources).items ∧
      ∀ c ∈ converted py random resources, ReadOf py random c.1 c.2 := by
  have hall : List.Forall₂ (ReadOf py random) (instancesOf resources)
      (itemsV4 py random resources).items := by
    rw [itemsV4_eq] at h ⊢
    exact iterInstances_spec py random (instancesOf resources) 0 h
  refine ⟨?_, fun c hc => List.forall₂_zip hall hc⟩
  rw [converted, List.map_snd_zip]
  exact Nat.le_of_eq hall.length_eq.symm

/-- Some managed instance cannot be parsed, or no data source has a type with a parser. -/
def Agrees {β : Type} (parserOf : String → Option (Attrs → Except PyError β)) : Prop :=
  (∃ c ∈ converted py random resources, c.1.1.mode = .managed ∧
    ∃ parser, parserOf (firstPart c.1.1.type) = some parser ∧
      (parser c.2.attributes).toOption = none) ∨
  ∀ c ∈ converted py random resources, c.1.1.mode = .data → parserOf (firstPart c.1.1.type) = none

section Pass
variable {py : Python} {random : Nat → Nat} {resources : List ResourceV4} {modules : List Module}
  (h : V3Of py random resources modules)
  {β : Type} (parserOf : String → Option (Attrs → Except PyError β))
include h

theorem passV4_eq : (itemsV4 py random resources).filterMapM (round parserOf) =
    .through (fun c => round parserOf c.2) none (converted py random resources) := by
  rw [Generator.filterMapM, h.converts, ← (converted_spec py random resources h.converts).1,
    Generator.through_map]

theorem passV3_eq (hdata : parserOf "data" = none) :
    (itemsV3 py random modules).filterMapM (round parserOf) =
      .through (fun c => if c.1.1.mode = .managed then round parserOf c.2 else .ok none) none
        (converted py random resources) := by
  obtain ⟨hnone, hentries⟩ := itemsV3_of_paths py random modules h.paths
  -- A round reads the key and the attributes of the item only.
  have hread : Generator.through (round parserOf) none (itemsV3 py random modules).items =
      .through (fun e : String × Attrs => round parserOf ⟨"", e.1, e.2⟩) none
        ((itemsV3 py random modules).items.map fun item => (item.key, item.attributes)) := by
    rw [Generator.through_map]
    exact Generator.through_congr fun item _ => rfl
  rw [Generator.filterMapM, hnone, hread, hentries, h.entries, Generator.through_map]
  refine Generator.through_congr fun c hc => ?_
  cases hm : c.1.1.mode with
  | managed =>
    rw [v3Key_managed py _ _ hm, ← ((converted_spec py random resources h.converts).2 c hc).key]
    rfl
  | data =>
    simpa using (round_eq_none_iff parserOf _ "data" (itemType_data py "" c.1.1 c.1.2 _ hm)).mpr hdata

theorem itemType_converted (c : (ResourceV4 × Instance) × Item)
    (hc : c ∈ converted py random resources) : itemType c.2 = some (firstPart c.1.1.type) := by
  have hkey := ((converted_spec py random resources h.converts).2 c hc).key
  have htype := itemType_instanceKey py c.2.moduleName c.1.1 c.1.2 c.2.attributes
  rw [← hkey] at htype
  exact htype

theorem pass_agrees_iff (hdata : parserOf "data" = none) :
    ((itemsV4 py random resources).filterMapM (round parserOf)).toList.toOption =
        ((itemsV3 py random modules).filterMapM (round parserOf)).toList.toOption ↔
      Agrees py random resources parserOf := by
  rw [passV4_eq h, passV3_eq h parserOf hdata]
  have hguard := Generator.through_guard_iff
    (fun c : (ResourceV4 × Instance) × Item => decide (c.1.1.mode = .managed))
    (fun c => round parserOf c.2) (converted py random resources)
  simp only [decide_eq_true_eq, decide_eq_false_iff_not] at hguard
  rw [hguard, Agrees]
  refine or_congr (exists_congr fun c => and_congr_right fun hc => and_congr_right fun _ => ?_)
    (forall₂_congr fun c hc => ?_)
  · exact round_fails_iff parserOf c.2 _ (itemType_converted h c hc)
  · rw [round_eq_none_iff parserOf c.2 _ (itemType_converted h c hc)]
    cases c.1.1.mode <;> simp

/-- Without a data source that has a parser even the exceptions are the same. -/
theorem pass_eq (hdata : parserOf "data" = none) (hnone : ∀ c ∈ converted py random resources,
    c.1.1.mode = .data → parserOf (firstPart c.1.1.type) = none) :
    (itemsV4 py random resources).filterMapM (round parserOf) =
      (itemsV3 py random modules).filterMapM (round parserOf) := by
  rw [passV4_eq h, passV3_eq h parserOf hdata]
  refine Generator.through_congr fun c hc => ?_
  cases hm : c.1.1.mode with
  | managed => rfl
  | data => exact (round_eq_none_iff parserOf c.2 _ (itemType_converted h c hc)).mpr (hnone c hc hm)

end Pass

/-- The hosts and the associations are the same in version 3, and no data source is a host. -/
structure SameHosts (modules : List Module) : Prop where
  hosts : (iterhosts py (itemsV4 py random resources)).toList.toOption =
    (iterhosts py (itemsV3 py random modules)).toList.toOption
  ips : (iterips (itemsV4 py random resources)).toList.toOption =
    (iterips (itemsV3 py random modules)).toList.toOption
  managed : ∀ hosts, (iterhosts py (itemsV4 py random resources)).toList = .ok hosts →
    ∀ c ∈ converted py random resources, c.1.1.mode = .data → ∀ d, hostOf py c.2 ≠ .ok (some d)

end Versions

section Same
variable {py : Python} {random : Nat → Nat} {resources : List ResourceV4} {modules : List Module}
  (h : V3Of py random resources modules)
include h

theorem managed_of_agrees (hagrees : Agrees py random resources (parsers py)) (hosts : List Host)
    (hhosts : (iterhosts py (itemsV4 py random resources)).toList = .ok hosts)
    (c : (ResourceV4 × Instance) × Item) (hc : c ∈ converted py random resources)
    (hm : c.1.1.mode = .data) (d : Host) : hostOf py c.2 ≠ .ok (some d) := by
  rw [iterhosts, hostOf_eq_round, passV4_eq h, Generator.toList_eq_ok_iff] at hhosts
  rw [hostOf_eq_round]
  cases hagrees with
  | inl hbad =>
    obtain ⟨c', hc', -, hfails⟩ := hbad
    obtain ⟨b?, hok⟩ := (Generator.ok_of_through hhosts.1).2 c' hc'
    have herr := (round_fails_iff (parsers py) c'.2 _ (itemType_converted h c' hc')).mpr hfails
    rw [hok] at herr
    cases herr
  | inr hnone =>
    have hskip := (round_eq_none_iff (parsers py) c.2 _ (itemType_converted h c hc)).mpr
      (hnone c hc hm)
    rw [hskip]
    exact fun he => nomatch Except.ok.inj he

end Same

/-- A state of version 3 with a module for each instance. -/
def v3Modules (py : Python) (random : Nat → Nat) (resources : List ResourceV4) : List Module :=
  (converted py random resources).map fun c =>
    ⟨["root"], (∅ : OrderedDict String Attrs).setItem (v3Key py c.1.1 c.1.2) c.2.attributes⟩

theorem v3Modules_spec (py : Python) (random : Nat → Nat) (resources : List ResourceV4)
    (h : (itemsV4 py random resources).raises = none) :
    V3Of py random resources (v3Modules py random resources) := by
  refine ⟨h, fun m hm => ?_, ?_⟩
  · obtain ⟨c, -, rfl⟩ := List.mem_map.mp hm
    exact List.cons_ne_nil "root" []
  · rw [v3Modules, List.flatMap_map, List.map_eq_flatMap]
    rfl

/-- An instance that the state reads from the cloud, for others to refer to. -/
def bastionSource : ResourceV4 where
  type := "openstack_compute_instance_v2"
  name := "bastion"
  mode := .data
  provider := "provider.openstack"
  instances := [⟨none, (∅ : Attrs).setAll [
    ("name", .str "bastion"),
    ("id", .str "a1"),
    ("access_ip_v4", .str "10.0.0.1"),
    ("access_ip_v6", .str ""),
    ("network", .arr [.obj [("name", .str "private"), ("fixed_ip_v4", .str "10.0.0.1")]]),
    ("key_pair", .str "kubernetes"),
    ("image_id", .str "flatcar"),
    ("flavor_name", .str "m1.small"),
    ("region", .str "RegionOne"),
    ("metadata", .obj [])]⟩]

theorem bastionSource_v3 : V3Of scalarPython (fun _ => 7) [bastionSource]
    (v3Modules scalarPython (fun _ => 7) [bastionSource]) :=
  v3Modules_spec scalarPython (fun _ => 7) [bastionSource] (by decide +kernel)

end Kubespray.Terraform

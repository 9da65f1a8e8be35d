import Kubespray.Lib.Fields
import Kubespray.Lib.OrderedDict
import Kubespray.Lib.Runs

/-! contrib/aws_inventory/kubespray-aws-inventory.py: the inventory of the instances that EC2 lists
for each group. -/
namespace Kubespray.Aws
open Fields

structure Instance where
  privateDnsName : String
  publicDnsName : String
  privateIpAddress : Option String
  publicIpAddress : Option String
  tags : List (String × List Char)

structure Filter where
  name : String
  values : List String

structure Environment where
  vpcVisibility : Option String
  clusterName : Option String

abbrev Labels := OrderedDict (List Char) (List Char)

structure HostVars where
  ansibleSshHost : Option String
  nodeLabels : Option Labels

inductive Error where
  | valueError (label : List Char)

/-- hosts[group], and hosts['_meta']['hostvars']; the children of k8s_cluster are always the same. -/
structure Hosts where
  groups : OrderedDict String (List String)
  hostvars : OrderedDict String HostVars

section Labels

/-- A pair of `dict(...)`, from `label.strip().split('=')`. -/
def parseLabel (label : List Char) : Except Error (List Char × List Char) :=
  match splitChar '=' (trim label) with
  | [k, v] => .ok (k, v)
  | _ => .error (.valueError label)

/-- `dict([ label.strip().split('=') for label in value.split(',') ])` -/
def parseLabels (value : List Char) : Except Error Labels := do
  let pairs ← (splitChar ',' value).mapM parseLabel
  return (∅ : Labels).setAll pairs

end Labels

section Search
variable (env : Environment)

def isPublic : Bool := env.vpcVisibility = some "public"

def dnsName (i : Instance) : String := if isPublic env then i.publicDnsName else i.privateDnsName

def address (i : Instance) : Option String :=
  if isPublic env then i.publicIpAddress else i.privateIpAddress

def filters (group : String) : List Filter :=
  [⟨"tag:kubespray-role", ["*" ++ group ++ "*"]⟩, ⟨"instance-state-name", ["running"]⟩] ++
    match env.clusterName with
    | some name => if name = "" then [] else [⟨"tag-key", ["kubernetes.io/cluster/" ++ name]⟩]
    | none => []

def hostVars (i : Instance) : Except Error HostVars :=
  match i.tags.find? fun t => t.1 = "kubespray-node-labels" with
  | none => .ok ⟨address env i, none⟩
  | some t => (parseLabels t.2).map fun labels => ⟨address env i, some labels⟩

def addInstance (group : String) (hosts : Hosts) (i : Instance) : Except Error Hosts :=
  (hostVars env i).map fun vars =>
    ⟨hosts.groups.append group (dnsName env i), hosts.hostvars.setItem (dnsName env i) vars⟩

def searchedGroups : List String := ["kube_control_plane", "kube_node", "etcd"]

/-- What is searched for one group, where `ec2` answers the request. -/
def searchGroup (ec2 : List Filter → List Instance) (hosts : Hosts) (group : String) :
    Except Error Hosts :=
  (ec2 (filters env group)).foldlM (addInstance env group)
    { hosts with groups := hosts.groups.setItem group [] }

def searchTags (ec2 : List Filter → List Instance) : Except Error Hosts :=
  searchedGroups.foldlM (searchGroup env ec2) ⟨∅, ∅⟩

end Search

section RoundTrip

/-- A label as it is read from the tag again. -/
structure Plain (label : List Char × List Char) : Prop where
  key : ',' ∉ label.1 ∧ '=' ∉ label.1 ∧ label.1.head?.any isSpace = false
  value : ',' ∉ label.2 ∧ '=' ∉ label.2 ∧ label.2.getLast?.any isSpace = false

/-- `k1=v1,k2=v2` -/
def labelsText (labels : Labels) : List Char :=
  [','].intercalate (labels.entries.map fun l => l.1 ++ '=' :: l.2)

theorem parseLabel_eq_ok_iff (label k v : List Char) :
    parseLabel label = .ok (k, v) ↔ splitChar '=' (trim label) = [k, v] := by
  rw [parseLabel]
  split
  · rename_i k' v' h
    simp [h]
  · rename_i h
    simp only [reduceCtorEq, false_iff]
    exact h k v

theorem head?_any_label (k v : List Char) :
    (k ++ '=' :: v).head?.any isSpace = k.head?.any isSpace := by
  cases k with
  | nil => rw [List.nil_append, List.head?_cons, Option.any_some, List.head?_nil]; decide
  | cons c cs => rfl

theorem getLast?_any_label (k v : List Char) :
    (k ++ '=' :: v).getLast?.any isSpace = v.getLast?.any isSpace := by
  rw [List.getLast?_append_of_ne_nil _ (by simp)]
  cases v with
  | nil => decide
  | cons c cs => rfl

theorem parseLabel_of_plain {l : List Char × List Char} (h : Plain l) :
    parseLabel (l.1 ++ '=' :: l.2) = .ok l := by
  refine (parseLabel_eq_ok_iff _ l.1 l.2).mpr ?_
  rw [trim_eq_self, splitChar_append '=' l.1 l.2 h.key.2.1, splitChar_of_not_mem '=' l.2 h.value.2.1]
  · rw [head?_any_label]
    exact h.key.2.2
  · rw [getLast?_any_label]
    exact h.value.2.2

theorem plain_of_parseLabel {label : List Char} {l : List Char × List Char} (hno : ',' ∉ label)
    (h : parseLabel label = .ok l) : Plain l := by
  have hparts := (parseLabel_eq_ok_iff label l.1 l.2).mp h
  have htext := eq_of_splitChar_pair hparts
  obtain ⟨hhead, hlast⟩ := trim_ends label
  rw [htext, head?_any_label] at hhead
  rw [htext, getLast?_any_label] at hlast
  have hmem : l.1 ∈ splitChar '=' (trim label) ∧ l.2 ∈ splitChar '=' (trim label) := by simp [hparts]
  have hk := of_mem_splitChar hmem.1
  have hv := of_mem_splitChar hmem.2
  exact ⟨⟨fun hc => hno (mem_of_mem_trim (hk.2 _ hc)), hk.1, hhead⟩,
    ⟨fun hc => hno (mem_of_mem_trim (hv.2 _ hc)), hv.1, hlast⟩⟩

theorem mapM_parseLabel_of_plain {ls : List (List Char × List Char)} (h : ∀ l ∈ ls, Plain l) :
    (ls.map fun l => l.1 ++ '=' :: l.2).mapM parseLabel = .ok ls := by
  induction ls with
  | nil => rfl
  | cons l ls ih =>
    rw [List.map_cons, List.mapM_cons, parseLabel_of_plain (h l (by simp)),
      ih fun x hx => h x (List.mem_cons_of_mem l hx)]
    rfl

theorem plain_of_mapM {labels : List (List Char)} {ls : List (List Char × List Char)}
    (hno : ∀ label ∈ labels, ',' ∉ label) (h : labels.mapM parseLabel = .ok ls) : ∀ l ∈ ls, Plain l := by
  induction labels generalizing ls with
  | nil =>
    obtain rfl : [] = ls := Except.ok.inj h
    simp
  | cons label labels ih =>
    rw [List.mapM_cons] at h
    obtain ⟨l, hl, hrest⟩ := Runs.bind_eq_ok h
    obtain ⟨ls', hls, hout⟩ := Runs.bind_eq_ok hrest
    obtain rfl : l :: ls' = ls := Except.ok.inj hout
    refine List.forall_mem_cons.mpr ⟨plain_of_parseLabel (hno label (by simp)) hl, ?_⟩
    exact ih (fun x hx => hno x (List.mem_cons_of_mem label hx)) hls

/-- Labels are read back from the text of their tag exactly where there are some, and commas, equals
signs and whitespace at the ends do not occur in them. -/
theorem parseLabels_labelsText_iff (labels : Labels) :
    parseLabels (labelsText labels) = .ok labels ↔
      labels.entries ≠ [] ∧ ∀ l ∈ labels.entries, Plain l := by
  rw [parseLabels, labelsText]
  constructor
  · intro h
    obtain ⟨ls, hls, hout⟩ := Runs.bind_eq_ok h
    have hset : (∅ : Labels).setAll ls = labels := Except.ok.inj hout
    have hplain := plain_of_mapM (fun label hl => (of_mem_splitChar hl).1) hls
    refine ⟨fun hnil => ?_, fun l hl => ?_⟩
    · have hempty : (splitChar ',' ([','].intercalate [])).mapM parseLabel =
          .error (.valueError []) := rfl
      rw [hnil, List.map_nil, hempty] at hls
      cases hls
    · have hlookup := (labels.lookup_eq_some_iff l.1 l.2).mpr hl
      rw [← hset] at hlookup
      by_cases hmem : l.1 ∈ ls.map Prod.fst
      · obtain ⟨v, hv, hin⟩ := (∅ : Labels).lookup_setAll_of_mem ls l.1 hmem
        obtain rfl : v = l.2 := Option.some.inj (hv.symm.trans hlookup)
        exact hplain _ hin
      · rw [(∅ : Labels).lookup_setAll_of_not_mem ls l.1 hmem] at hlookup
        cases hlookup
  · rintro ⟨hne, hplain⟩
    have hno : ∀ p ∈ labels.entries.map fun l => l.1 ++ '=' :: l.2, ',' ∉ p := by
      intro p hp
      obtain ⟨l, hl, rfl⟩ := List.mem_map.mp hp
      simp [(hplain l hl).key.1, (hplain l hl).value.1]
    rw [splitChar_intercalate ',' (by simpa using hne) hno, mapM_parseLabel_of_plain hplain]
    refine congrArg Except.ok (OrderedDict.ext_entries ?_)
    rw [OrderedDict.empty_setAll_entries _ labels.nodup]

end RoundTrip

section Search
variable (env : Environment) (ec2 : List Filter → List Instance)

def found (group : String) : List Instance := ec2 (filters env group)

/-- The instances in the order in which the loops come to them. -/
def allFound : List Instance := searchedGroups.flatMap (found env ec2)

/-- What the script has of an instance, where its labels can be read. -/
def varsOf (i : Instance) : HostVars :=
  match hostVars env i with
  | .ok vars => vars
  | .error _ => ⟨none, none⟩

def Readable (i : Instance) : Prop := ∃ vars, hostVars env i = .ok vars

theorem hostVars_eq_ok_iff (i : Instance) (vars : HostVars) :
    hostVars env i = .ok vars ↔ Readable env i ∧ vars = varsOf env i := by
  rw [Readable, varsOf]
  cases hostVars env i with
  | ok v => simp [eq_comm]
  | error e => simp

/-- The inventory that the loops build where nothing raises. -/
def collected : Hosts where
  groups := (∅ : OrderedDict String (List String)).setAll
    (searchedGroups.map fun g => (g, (found env ec2 g).map (dnsName env)))
  hostvars := (∅ : OrderedDict String HostVars).setAll
    ((allFound env ec2).map fun i => (dnsName env i, varsOf env i))

def addFound (group : String) (hosts : Hosts) (i : Instance) : Hosts :=
  ⟨hosts.groups.append group (dnsName env i), hosts.hostvars.setItem (dnsName env i) (varsOf env i)⟩

theorem addInstance_eq_ok_iff (group : String) (hosts hosts' : Hosts) (i : Instance) :
    addInstance env group hosts i = .ok hosts' ↔
      Readable env i ∧ hosts' = addFound env group hosts i := by
  rw [addInstance]
  constructor
  · intro h
    cases hv : hostVars env i with
    | error e =>
      rw [hv] at h
      cases h
    | ok vars =>
      rw [hv] at h
      obtain ⟨hread, rfl⟩ := (hostVars_eq_ok_iff env i vars).mp hv
      exact ⟨hread, (Except.ok.inj h).symm⟩
  · rintro ⟨hread, rfl⟩
    rw [(hostVars_eq_ok_iff env i (varsOf env i)).mpr ⟨hread, rfl⟩]
    rfl

theorem foldl_addFound (group : String) (is : List Instance) (hosts : Hosts) (names : List String)
    (h : hosts.groups.lookup group = some names) : is.foldl (addFound env group) hosts =
      ⟨hosts.groups.setItem group (names ++ is.map (dnsName env)),
        hosts.hostvars.setAll (is.map fun i => (dnsName env i, varsOf env i))⟩ := by
  induction is generalizing hosts names with
  | nil =>
    rw [List.map_nil, List.append_nil, hosts.groups.setItem_of_lookup group names h]
    rfl
  | cons i is ih =>
    rw [List.foldl_cons, ih _ (names ++ [dnsName env i])]
    · rw [addFound, OrderedDict.append, h, OrderedDict.setItem_setItem, List.map_cons, List.map_cons,
        List.append_assoc]
      rfl
    · rw [addFound, OrderedDict.append, h, OrderedDict.lookup_setItem, if_pos rfl]
      rfl

def addGroup (hosts : Hosts) (group : String) : Hosts where
  groups := hosts.groups.setItem group ((found env ec2 group).map (dnsName env))
  hostvars := hosts.hostvars.setAll
    ((found env ec2 group).map fun i => (dnsName env i, varsOf env i))

theorem searchGroup_eq_ok_iff (hosts hosts' : Hosts) (group : String) :
    searchGroup env ec2 hosts group = .ok hosts' ↔
      (∀ i ∈ found env ec2 group, Readable env i) ∧ hosts' = addGroup env ec2 hosts group := by
  rw [searchGroup, Runs.foldlM_eq_ok_iff (I := fun _ => True) (fun _ _ _ => trivial)
    (fun s i s' _ => addInstance_eq_ok_iff env group s s' i) _ trivial, foldl_addFound env group _ _ []]
  · rw [List.nil_append, OrderedDict.setItem_setItem]
    rfl
  · rw [OrderedDict.lookup_setItem, if_pos rfl]

theorem foldl_addGroup (gs : List String) (hosts : Hosts) : gs.foldl (addGroup env ec2) hosts =
    ⟨hosts.groups.setAll (gs.map fun g => (g, (found env ec2 g).map (dnsName env))),
      hosts.hostvars.setAll ((gs.flatMap (found env ec2)).map fun i => (dnsName env i, varsOf env i))⟩ := by
  induction gs generalizing hosts with
  | nil => rfl
  | cons g gs ih =>
    rw [List.foldl_cons, ih, addGroup, List.flatMap_cons, List.map_append, OrderedDict.setAll_append]
    rfl

theorem searchTags_eq_ok_iff (hosts : Hosts) : searchTags env ec2 = .ok hosts ↔
    (∀ i ∈ allFound env ec2, Readable env i) ∧ hosts = collected env ec2 := by
  rw [searchTags, Runs.foldlM_eq_ok_iff (I := fun _ => True) (fun _ _ _ => trivial)
    (fun s g s' _ => searchGroup_eq_ok_iff env ec2 s s' g) _ trivial]
  rw [foldl_addGroup]
  refine and_congr_left fun _ => ?_
  constructor
  · intro h i hi
    obtain ⟨g, hg, hi⟩ := List.mem_flatMap.mp hi
    exact h g hg i hi
  · intro h g hg i hi
    exact h i (List.mem_flatMap.mpr ⟨g, hg, hi⟩)

/-- Every label of the tag has one equals sign. -/
def LabelsGiven (i : Instance) : Prop := ∀ t, i.tags.find? (·.1 = "kubespray-node-labels") = some t →
  ∀ label ∈ splitChar ',' t.2, (trim label).count '=' = 1

theorem exists_parseLabel_iff (label : List Char) :
    (∃ l, parseLabel label = .ok l) ↔ (trim label).count '=' = 1 := by
  have hlen := length_splitChar '=' (trim label)
  rw [Prod.exists]
  simp only [parseLabel_eq_ok_iff]
  constructor
  · rintro ⟨k, v, h⟩
    rw [h] at hlen
    exact (Nat.succ.inj hlen).symm
  · intro h
    rw [h] at hlen
    exact List.length_eq_two.mp hlen

theorem readable_iff (i : Instance) : Readable env i ↔ LabelsGiven i := by
  rw [Readable, hostVars, LabelsGiven]
  cases i.tags.find? fun t => t.1 = "kubespray-node-labels" with
  | none => simp
  | some t =>
    simp only [Option.some.injEq, forall_eq', ← exists_parseLabel_iff, ← Runs.exists_mapM_iff]
    rw [parseLabels]
    constructor
    · rintro ⟨vars, h⟩
      cases hp : (splitChar ',' t.2).mapM parseLabel with
      | error e =>
        rw [hp] at h
        cases h
      | ok pairs => exact ⟨pairs, rfl⟩
    · rintro ⟨pairs, hp⟩
      rw [hp]
      exact ⟨_, rfl⟩

/-- Each group has the instances found for it, and each of them its own variables. -/
structure Complete (hosts : Hosts) : Prop where
  groups : ∀ g ∈ searchedGroups, hosts.groups.lookup g = some ((found env ec2 g).map (dnsName env))
  hostvars : ∀ i ∈ allFound env ec2, ∃ vars, hostVars env i = .ok vars ∧
    hosts.hostvars.lookup (dnsName env i) = some vars

theorem collected_groups : ∀ g ∈ searchedGroups,
    (collected env ec2).groups.lookup g = some ((found env ec2 g).map (dnsName env)) := by
  intro g hg
  obtain ⟨v, hv, hin⟩ := (∅ : OrderedDict String (List String)).lookup_setAll_of_mem
    (searchedGroups.map fun g => (g, (found env ec2 g).map (dnsName env))) g
    (by simpa [List.map_map] using hg)
  obtain ⟨g', -, he⟩ := List.mem_map.mp hin
  obtain ⟨rfl, rfl⟩ := Prod.mk.inj he
  exact hv

end Search

end Kubespray.Aws

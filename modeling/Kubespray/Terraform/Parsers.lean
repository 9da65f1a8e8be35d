import Kubespray.Lib.Text
import Kubespray.Terraform.State

/-! From resources to hosts: the helpers that read flat attributes, the parsers of the two
providers, and the passes over all resources. -/
namespace Kubespray.Terraform

/-- `compkey.split(sep, 1)` -/
def splitKey (sep : Char) (compkey : String) : Option (String × String) :=
  (splitOnce sep compkey.toList).map fun p => (String.ofList p.1, String.ofList p.2)

def parsePrefix (source : Attrs) (pre : String) (sep : Char) : List (String × Json) :=
  source.entries.filterMap fun e =>
    match splitKey sep e.1 with
    | none => none
    | some (cur, rest) => if cur ≠ pre ∨ rest = "#" then none else some (rest, e.2)

/-- parse_attr_list: the dictionaries by index, in the order in which the indices come up. -/
def parseAttrList (source : Attrs) (pre : String) (sep : Char) : Except PyError (List Attrs) := do
  let attrs ← (parsePrefix source pre sep).foldlM (fun (attrs : OrderedDict String Attrs) e =>
    match splitKey sep e.1 with
    | none => .error (.valueError "not enough values to unpack (expected 2, got 1)" [])
    | some (idx, key) =>
      .ok (attrs.setItem idx (((attrs.lookup idx).getD ∅).setItem key e.2))) ∅
  .ok attrs.values

def parseDict (source : Attrs) (pre : String) (sep : Char) : Attrs :=
  (∅ : Attrs).setAll (parsePrefix source pre sep)

def parseList (source : Attrs) (pre : String) (sep : Char) : List Json :=
  (parsePrefix source pre sep).map Prod.snd

def parseBool (py : Python) : Json → Except PyError Bool
  | .bool b => .ok b
  | .str s =>
    match s.toList with
    | [] => .error .indexError
    | c :: _ =>
      if c.toLower = 't' then .ok true
      else if c.toLower = 'f' then .ok false
      else .error (.valueError "could not convert %r to a bool" [py.repr (.str s)])
  | _ => .error .attributeError

/-- `raw_attrs[key]` -/
def getAttr (raw : Attrs) (key : String) : Except PyError Json :=
  match raw.lookup key with
  | some v => .ok v
  | none => .error (.keyError key)

/-- A value where only a string will do. -/
def asStr : Json → Except PyError String
  | .str s => .ok s
  | _ => .error .typeError

/-- `raw_attrs[key]` for names and ids, which are strings in the schemas of the providers. -/
def strAttr (raw : Attrs) (key : String) : Except PyError String := do
  let v ← getAttr raw key
  asStr v

def dictValue (d : Attrs) : Json := .obj d.entries

/-- A host triple. -/
structure Host where
  name : String
  attrs : Attrs
  groups : List String

def packetDevice (py : Python) (raw : Attrs) : Except PyError Host := do
  let name ← strAttr raw "hostname"
  let id ← strAttr raw "id"
  let operatingSystem ← getAttr raw "operating_system"
  let lockedForm ← getAttr raw "locked"
  let locked ← parseBool py lockedForm
  let tags := parseList raw "tags" '.'
  let plan ← getAttr raw "plan"
  let projectId ← getAttr raw "project_id"
  let state ← getAttr raw "state"
  let address ← getAttr raw "network.0.address"
  let address6 ← getAttr raw "network.1.address"
  let private4 ← getAttr raw "network.2.address"
  let attrs := (∅ : Attrs).setAll [
    ("id", .str id),
    ("facilities", .arr (parseList raw "facilities" '.')),
    ("hostname", .str name),
    ("operating_system", operatingSystem),
    ("locked", .bool locked),
    ("tags", .arr tags),
    ("plan", plan),
    ("project_id", projectId),
    ("state", state),
    ("ansible_ssh_host", address),
    ("ansible_ssh_user", .str "root"),
    ("ipv4_address", address),
    ("public_ipv4", address),
    ("ipv6_address", address6),
    ("public_ipv6", address6),
    ("private_ipv4", private4),
    ("provider", .str "packet")]
  let attrs :=
    if operatingSystem.isStr "flatcar_stable" then attrs.setItem "ansible_ssh_user" (.str "core")
    else attrs
  let os ← asStr operatingSystem
  let stateText ← asStr state
  let planText ← asStr plan
  let tagTexts ← tags.mapM asStr
  .ok ⟨name, attrs, ["packet_operating_system=" ++ os,
    "packet_locked=" ++ py.str (.bool locked), "packet_state=" ++ stateText,
    "packet_plan=" ++ planText] ++ tagTexts⟩

def openstackFloatingIps (raw : Attrs) : Except PyError (String × Json) := do
  let instanceId ← strAttr raw "instance_id"
  let floatingIp ← getAttr raw "floating_ip"
  .ok (instanceId, floatingIp)

/-- `re.sub("[\[\]]", "", text)` -/
def stripBrackets : Json → Except PyError Json
  | .str s => .ok (.str (String.ofList (s.toList.filter fun c => c ≠ '[' && c ≠ ']')))
  | _ => .error .typeError

/-- The address for ssh. Both addresses have been read before, so that the except branch is
never taken. -/
def sshHostOf (raw : Attrs) (accessIpV4 accessIpV6 : Json) : Except PyError Json :=
  if (raw.lookup "metadata.prefer_ipv6").any (·.isStr "1") then stripBrackets accessIpV6
  else .ok accessIpV4

/-- `re.search("^volume.*.device$", key)`; `$` also matches before a final line feed. -/
def isVolumeDevice (key : String) : Bool :=
  let cs := match key.toList.reverse with
    | '\n' :: rest => rest.reverse
    | _ => key.toList
  let mid := (cs.drop 6).take (cs.length - 12)
  "volume".toList.isPrefixOf cs && "device".toList.isSuffixOf cs && 13 ≤ cs.length &&
    mid.all (· ≠ '\n')

/-- The variables disk_volume_device_1, disk_volume_device_2 and so on. -/
def volumeDevices (raw : Attrs) : List (String × Json) :=
  ((raw.entries.filter fun e => isVolumeDevice e.1).zipIdx 1).map fun p =>
    ("disk_volume_device_" ++ toString p.2, p.1.2)

def addVolumes (py : Python) (raw attrs : Attrs) : Except PyError Attrs :=
  match raw.lookup "volume.#" with
  | none => .ok attrs
  | some count => do
    let n ← py.int count
    .ok (if 0 < n then attrs.setAll (volumeDevices raw) else attrs)

/-- `'os_metadata_%s=%s' % item` -/
def metadataGroup (py : Python) (item : String × Json) : String :=
  "os_metadata_" ++ item.1 ++ "=" ++ py.str item.2

def kubesprayGroups (metadata : Attrs) : Except PyError (List String) :=
  match metadata.lookup "kubespray_groups" with
  | none => .ok [""]
  | some (.str s) => .ok ((splitChar ',' s.toList).map String.ofList)
  | some _ => .error .attributeError

/-- The dictionary that openstack_host starts from. -/
def instanceVars (raw : Attrs) (accessIpV4 accessIpV6 ip : Json) (id : String) (keyPair : Json)
    (network : List Attrs) : Attrs :=
  (∅ : Attrs).setAll [
    ("access_ip_v4", accessIpV4),
    ("access_ip_v6", accessIpV6),
    ("access_ip", accessIpV4),
    ("ip", ip),
    ("flavor", dictValue (parseDict raw "flavor" '_')),
    ("id", .str id),
    ("image", dictValue (parseDict raw "image" '_')),
    ("key_pair", keyPair),
    ("metadata", dictValue (parseDict raw "metadata" '.')),
    ("network", .arr (network.map dictValue)),
    ("region", (raw.lookup "region").getD (.str "")),
    ("security_groups", .arr (parseList raw "security_groups" '.')),
    ("ansible_ssh_port", .num 22),
    ("host_domain", .str "novalocal"),
    ("use_host_domain", .bool true),
    ("public_ipv4", accessIpV4),
    ("private_ipv4", accessIpV4),
    ("provider", .str "openstack")]

def withPrivateIp (raw : Attrs) (ip : Json) (attrs : Attrs) : Attrs :=
  if "floating_ip" ∈ raw.keys then attrs.setItem "private_ipv4" ip else attrs

def withSshUser (raw attrs : Attrs) : Attrs :=
  match raw.lookup "metadata.ssh_user" with
  | some user => attrs.setItem "ansible_ssh_user" user
  | none => attrs

/-- openstack_host, without its decorator. -/
def openstackHostInner (py : Python) (raw : Attrs) : Except PyError Host := do
  let name ← strAttr raw "name"
  let accessIpV4 ← getAttr raw "access_ip_v4"
  let accessIpV6 ← getAttr raw "access_ip_v6"
  let ip ← getAttr raw "network.0.fixed_ip_v4"
  let flavor := parseDict raw "flavor" '_'
  let id ← strAttr raw "id"
  let image := parseDict raw "image" '_'
  let keyPair ← getAttr raw "key_pair"
  let metadata := parseDict raw "metadata" '.'
  let network ← parseAttrList raw "network" '.'
  let region := (raw.lookup "region").getD (.str "")
  let attrs := withPrivateIp raw ip (instanceVars raw accessIpV4 accessIpV6 ip id keyPair network)
  let sshHost ← sshHostOf raw accessIpV4 accessIpV6
  let attrs := attrs.setAll [("ansible_ssh_host", sshHost), ("publicly_routable", .bool true)]
  let attrs ← addVolumes py raw (withSshUser raw attrs)
  let attrs := attrs.setItem "role" ((metadata.lookup "role").getD (.str "none"))
  let imageId ← strAttr image "id"
  let flavorName ← strAttr flavor "name"
  let regionText ← asStr region
  let groups ← kubesprayGroups metadata
  .ok ⟨name, attrs, ["os_image=" ++ imageId, "os_flavor=" ++ flavorName] ++
    metadata.entries.map (metadataGroup py) ++ ["os_region=" ++ regionText] ++ groups⟩

/-- `attrs.get('publicly_routable', False)`, as a condition. -/
def truthy : Option Json → Bool
  | none => false
  | some .null => false
  | some (.bool b) => b
  | some (.num n) => n ≠ 0
  | some (.float repr) => repr ≠ "0.0" && repr ≠ "-0.0"
  | some (.str s) => s ≠ ""
  | some (.arr items) => !items.isEmpty
  | some (.obj fields) => !fields.isEmpty

def calculateMantlVars (h : Host) : Host where
  name := h.name
  attrs := h.attrs.setItem "consul_is_server" (.bool ((h.attrs.lookup "role").any (·.isStr "control")))
  groups := if truthy (h.attrs.lookup "publicly_routable") then h.groups ++ ["publicly_routable"]
    else h.groups

def openstackHost (py : Python) (raw : Attrs) : Except PyError Host :=
  (openstackHostInner py raw).map calculateMantlVars

def packetType : String := "packet_device"

def openstackType : String := "openstack_compute_instance_v2"

def floatingIpType : String := "openstack_compute_floatingip_associate_v2"

/-- `PARSERS` -/
def parsers (py : Python) (resourceType : String) : Option (Attrs → Except PyError Host) :=
  if resourceType = packetType then some (packetDevice py)
  else if resourceType = openstackType then some (openstackHost py)
  else none

/-- `resource_type, name = key.split('.', 1)` -/
def resourceType (key : String) : Except PyError String :=
  match splitKey '.' key with
  | some (type, _) => .ok type
  | none => .error (.valueError "not enough values to unpack (expected 2, got 1)" [])

/-- One round of iterhosts. -/
def hostOf (py : Python) (item : Item) : Except PyError (Option Host) := do
  let type ← resourceType item.key
  match parsers py type with
  | none => .ok none
  | some parser => (parser item.attributes).map some

def iterhosts (py : Python) (resources : Generator PyError Item) : Generator PyError Host :=
  resources.filterMapM (hostOf py)

/-- One round of iterips. -/
def ipOf (item : Item) : Except PyError (Option (String × Json)) := do
  let type ← resourceType item.key
  if type = floatingIpType then (openstackFloatingIps item.attributes).map some else .ok none

def iterips (resources : Generator PyError Item) : Generator PyError (String × Json) :=
  resources.filterMapM ipOf

def usesAccessIp (metadata : Json) : Bool :=
  match metadata with
  | .obj fields => !(fields.lookup "use_access_ip").any (·.isStr "0")
  | _ => true

/-- `if host_id in ips:` and what follows. -/
def withFloatingIp (ip? : Option Json) (attrs : Attrs) : Attrs :=
  match ip? with
  | none => attrs
  | some ip => attrs.setAll [
      ("access_ip_v4", ip),
      ("access_ip", ip),
      ("public_ipv4", ip),
      ("ansible_ssh_host", ip)]

/-- One round of iter_host_ips. -/
def updateHost (ips : OrderedDict String Json) (h : Host) : Except PyError Host := do
  let id ← strAttr h.attrs "id"
  let attrs := withFloatingIp (ips.lookup id) h.attrs
  let metadata ← getAttr attrs "metadata"
  if usesAccessIp metadata then .ok { h with attrs := attrs }
  else do
    let _ ← getAttr attrs "access_ip"
    .ok { h with attrs := attrs.erase "access_ip" }

def iterHostIps (hosts : Generator PyError Host) (ips : OrderedDict String Json) :
    Generator PyError Host :=
  hosts.mapM (updateHost ips)

/-- `if ips: hosts = iter_host_ips(hosts, ips)` -/
def withFloatingIps (hosts : Generator PyError Host) (ips : OrderedDict String Json) :
    Generator PyError Host :=
  if ips.keys = [] then hosts else iterHostIps hosts ips

/-- The hosts that main queries. The states are read twice, each time with other draws. -/
def mainHosts (py : Python) (random random' : Nat → Nat) (states : List State) :
    Except PyError (Generator PyError Host) := do
  let ips ← (iterips (iterresources py random states 0)).toList
  .ok (withFloatingIps (iterhosts py (iterresources py random' states 0))
    ((∅ : OrderedDict String Json).setAll ips))

/-- Python on scalars. -/
def scalarPython : Python where
  str
    | .null => "None"
    | .bool true => "True"
    | .bool false => "False"
    | .num n => toString n
    | .float repr => repr
    | .str s => s
    | _ => ""
  repr
    | .str s => "'" ++ s ++ "'"
    | _ => ""
  int
    | .num n => .ok n
    | .str s =>
      match s.toInt? with
      | some n => .ok n
      | none => .error (.valueError "invalid literal for int() with base 10: %r" ["'" ++ s ++ "'"])
    | _ => .error .typeError
  str_str _ := rfl
  int_num _ := rfl

/-- The attributes of an instance, as far as openstack_host needs them. -/
def instanceAttrs (name id ip : String) (metadata : List (String × Json)) : Attrs :=
  (∅ : Attrs).setAll ([
    ("name", .str name),
    ("id", .str id),
    ("access_ip_v4", .str ip),
    ("access_ip_v6", .str ""),
    ("network.0.fixed_ip_v4", .str ip),
    ("key_pair", .str "kubernetes"),
    ("image_id", .str "flatcar"),
    ("flavor_name", .str "m1.small"),
    ("region", .str "RegionOne")] ++ metadata.map fun e => ("metadata." ++ e.1, e.2))

example : (openstackHost scalarPython (instanceAttrs "k8s-node-1" "a1" "10.0.0.1"
    [("kubespray_groups", .str "kube_node,k8s_cluster")])).toOption.map Host.groups =
    some ["os_image=flatcar", "os_flavor=m1.small",
      "os_metadata_kubespray_groups=kube_node,k8s_cluster", "os_region=RegionOne", "kube_node",
      "k8s_cluster", "publicly_routable"] := by decide

end Kubespray.Terraform

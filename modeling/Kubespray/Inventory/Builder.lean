import Kubespray.Inventory.Hostnames
import Kubespray.Inventory.Groups

/-! KubesprayInventory.__init__: one invocation of the inventory builder, from the
configuration file and the arguments to the configuration file. -/
namespace Kubespray.Inventory

/-- Where an index of a slice falls: negative ones count from the end. -/
def sliceIndex (n : Nat) (i : Int) : Nat := if i < 0 then (i + n).toNat else min i.toNat n

/-- `l[start:stop]` -/
def pySlice {α : Type} (l : List α) (start stop : Int) : List α :=
  (l.take (sliceIndex l.length stop)).drop (sliceIndex l.length start)

def etcdHostsCount (n : Nat) : Nat := if 3 ≤ n then 3 else 1

def controlPlaneHosts (s : Settings) (names : List String) : List String :=
  let count : Int := etcdHostsCount names.length
  if s.scaleThreshold ≤ names.length then pySlice names count (count + s.kubeControlHosts)
  else pySlice names 0 s.kubeControlHosts

/-- The part of __init__ that distributes `self.hosts` to the groups. -/
def assignHosts (s : Settings) (hosts : HostMap) (a : AllGroup) : Except PyError AllGroup := do
  let names := hosts.keys
  let a ← a.purgeInvalidHosts names protectedNames
  let a ← a.setAll hosts
  let a := a.setK8sCluster
  let etcdHosts := names.take (etcdHostsCount names.length)
  let a ← a.setEtcd etcdHosts
  let a ← a.setKubeControlPlane (controlPlaneHosts s names)
  let a ← a.setKubeNode s names
  if s.scaleThreshold ≤ names.length then a.setCalicoRr etcdHosts else .ok a

/-- `self.hosts` -/
def newHosts (s : Settings) (a : AllGroup) (changedHosts : List String) :
    Except PyError HostMap := do
  let changedHosts ← range2ips s.tables changedHosts
  buildHostnames s a changedHosts

/-- __init__ for arguments that change hosts, up to write_config. -/
def build (s : Settings) (c : YamlConfig) (changedHosts : List String) :
    Except PyError AllGroup := do
  let c ← c.ensureRequiredGroups roles
  let a ← c.getAll
  let hosts ← newHosts s a changedHosts
  assignHosts s hosts a

/-- What ruamel.yaml is relied on for: a mapping that was dumped is the one document that
load_all finds. -/
structure Yaml (Text : Type) where
  dump : AllGroup → Text
  loadAll : Text → List Doc
  load_dump : ∀ a, loadAll (dump a) = [.mapping a]

/-- What json.load makes of an input file. -/
inductive JsonFile where
  | unreadable
  | invalid
  | data (v : Value)

def Value.items : Value → Except PyError (List (String × Value))
  | .obj fields => .ok fields
  | _ => .error .attributeError

def Value.getIp : Value → Except PyError Value
  | .obj fields =>
    match fields.lookup "ip" with
    | some ip => .ok ip
    | none => .error (.keyError "ip")
  | _ => .error .typeError

/-- The loops of load_file over one group of the data. -/
def loadGroup (a : AllGroup) (group : String) (hosts : Value) : Except PyError AllGroup := do
  let c ← (YamlConfig.dict (some a)).ensureRequiredGroups [group]
  let a ← c.getAll
  let items ← hosts.items
  items.foldlM (fun a (host, opts) => do
    let ip ← opts.getIp
    let a ← a.addHostToGroup "all" host (.obj [("ansible_host", ip), ("ip", ip), ("access_ip", ip)])
    a.addHostToGroup group host (.str "")) a

/-- One file of load_file, up to write_config. -/
def loadOne (c : YamlConfig) (name : String) (file : JsonFile) : Except PyError AllGroup := do
  let data ← match file with
    | .unreadable => .error .osError
    | .invalid => .error (.exception ["Cannot read %s as JSON, or CSV", name])
    | .data v => .ok v
  let c ← c.ensureRequiredGroups roles
  let a ← c.getAll
  let groups ← data.items
  groups.foldlM (fun a (group, hosts) => loadGroup a group hosts) a.setK8sCluster

inductive Output where
  | nothing
  | help
  | config (c : YamlConfig)
  | line (text : String)

/-- `self.yaml_config['all']['hosts']`, where its methods are called. -/
def YamlConfig.getHosts (c : YamlConfig) : Except PyError HostMap := do
  let a ← c.getAll
  match a.hosts with
  | .mapping d => .ok d
  | .null => .error .attributeError
  | .missing => .error (.keyError "hosts")

def printHostnames (c : YamlConfig) : Except PyError Output := do
  let hosts ← c.getHosts
  .ok (.line (" ".intercalate hosts.keys))

/-- One item of `' '.join(ips)`, which takes strings only. -/
def joinItem : Value → Except PyError String
  | .str ip => .ok ip
  | _ => .error .typeError

def printIps (c : YamlConfig) : Except PyError Output := do
  let hosts ← c.getHosts
  let ips ← hosts.values.mapM getIpFromOpts
  let texts ← ips.mapM joinItem
  .ok (.line (" ".intercalate texts))

section Invocation
variable {Text : Type} (s : Settings) (y : Yaml Text) (files : String → JsonFile)

/-- load_file writes the configuration after each file. -/
def loadFiles : List String → YamlConfig → Option Text → Except PyError Output × Option Text
  | [], _, stored => (.ok .nothing, stored)
  | name :: names, c, stored =>
    match loadOne c name (files name) with
    | .error e => (.error e, stored)
    | .ok a => loadFiles names (.dict (some a)) (some (y.dump a))

/-- parse_command for one of the available commands. -/
def parseCommand (command : String) (args : List String) (c : YamlConfig) (stored : Option Text) :
    Except PyError Output × Option Text :=
  if command = "help" then (.ok .help, stored)
  else if command = "print_cfg" then (.ok (.config c), stored)
  else if command = "print_ips" then (printIps c, stored)
  else if command = "print_hostnames" then (printHostnames c, stored)
  else if command = "load" then
    if args = [] then (.error (.exception ["No input file specified."]), stored)
    else loadFiles y files args c stored
  else (.error (.exception ["Invalid command specified."]), stored)

/-- The configuration __init__ starts from; CONFIG_FILE may not exist. -/
def loadConfig (stored : Option Text) : YamlConfig :=
  match stored with
  | none => .dict none
  | some text => .stream (y.loadAll text)

/-- One process: what it prints or raises, and the content of CONFIG_FILE after it. -/
def invoke (stored : Option Text) (changedHosts : List String) :
    Except PyError Output × Option Text :=
  let c := loadConfig y stored
  match changedHosts with
  | [] => ((c.ensureRequiredGroups roles).map fun _ => .help, stored)
  | first :: rest =>
    if first ∈ availableCommands then parseCommand y files first rest c stored
    else match build s c changedHosts with
      | .error e => (.error e, stored)
      | .ok a => (.ok .nothing, some (y.dump a))

end Invocation
end Kubespray.Inventory

import Kubespray.Lib.OrderedDict

/-! The data of contrib/inventory_builder/inventory.py: the configuration it keeps in
memory, its settings and the exceptions it raises. -/
namespace Kubespray.Inventory

inductive Value where
  | null
  | bool (b : Bool)
  | num (n : Int)
  | str (s : String)
  | arr (items : List Value)
  | obj (fields : List (String × Value))

namespace Value

def isStr (s : String) : Value → Bool
  | .str t => t = s
  | _ => false

end Value

inductive PyError where
  | valueError (message : String)
  | typeError
  | keyError (key : String)
  | indexError
  | unboundLocalError (name : String)
  | calledProcessError
  | attributeError
  | osError
  | exception (args : List String)
  deriving DecidableEq

/-- Python's classes of characters; on ASCII they are the usual ones. -/
structure CharTables where
  isalpha : Char → Bool
  isdigit : Char → Bool
  isspace : Char → Bool
  /-- The value of a decimal digit, the `\d` of regular expressions. -/
  decimal : Char → Option Nat
  isalpha_ascii : ∀ c, c.toNat < 128 → isalpha c = c.isAlpha
  isdigit_ascii : ∀ c, c.toNat < 128 → isdigit c = c.isDigit
  isspace_ascii : ∀ c, c.toNat < 128 →
    isspace c = decide (9 ≤ c.toNat ∧ c.toNat ≤ 13 ∨ 28 ≤ c.toNat ∧ c.toNat ≤ 32)
  decimal_ascii : ∀ c, c.toNat < 128 →
    decimal c = if c.isDigit then some (c.toNat - 48) else none

def CharTables.ascii : CharTables where
  isalpha := Char.isAlpha
  isdigit := Char.isDigit
  isspace c := 9 ≤ c.toNat ∧ c.toNat ≤ 13 ∨ 28 ≤ c.toNat ∧ c.toNat ≤ 32
  decimal c := if c.isDigit then some (c.toNat - 48) else none
  isalpha_ascii _ _ := rfl
  isdigit_ascii _ _ := rfl
  isspace_ascii _ _ := rfl
  decimal_ascii _ _ := rfl

/-- The shell variables the program reads, and what it asks of Python and of ssh. -/
structure Settings where
  kubeControlHosts : Int := 2
  scaleThreshold : Int := 50
  massiveScaleThreshold : Int := 200
  hostPrefix : String := "node"
  useRealHostname : Bool := false
  /-- The stripped output of `hostname -s` run on the address. -/
  realHostname : String → Except PyError String := fun _ => .error .calledProcessError
  tables : CharTables := .ascii

abbrev HostMap := OrderedDict String Value

/-- What a group has under its key 'hosts'. -/
inductive HostsKey where
  | missing
  | null
  | mapping (d : HostMap)

/-- A group below all.children: its 'hosts', and the names below its 'children', if it
has that key. -/
structure Group where
  hosts : HostsKey
  children : Option (List String)

def Group.keys (g : Group) : List String :=
  (match g.hosts with | .missing => [] | _ => ["hosts"]) ++
    (match g.children with | none => [] | some _ => ["children"])

structure AllGroup where
  hosts : HostsKey
  children : OrderedDict String Group

inductive Doc where
  | mapping (all : AllGroup)
  | scalar (text : String)

/-- The values yaml_config takes: a mapping with or without the key 'all', or the
generator that load_all returns, with the documents that are still to come. -/
inductive YamlConfig where
  | dict (all : Option AllGroup)
  | stream (docs : List Doc)

def roles : List String :=
  ["all", "kube_control_plane", "kube_node", "etcd", "k8s_cluster", "calico_rr"]

def protectedNames : List String := roles

def availableCommands : List String := ["help", "print_cfg", "print_ips", "print_hostnames", "load"]

def YamlConfig.getAll : YamlConfig → Except PyError AllGroup
  | .dict (some a) => .ok a
  | .dict none => .error (.keyError "all")
  | .stream _ => .error .typeError

/-- `'all' not in self.yaml_config` reads a generator up to the first document that equals
the string; what is then left of it is kept. -/
def YamlConfig.withAll : YamlConfig → YamlConfig
  | .dict (some a) => .dict (some a)
  | .dict none => .dict (some ⟨.mapping ∅, ∅⟩)
  | .stream docs =>
    match docs.dropWhile fun d => match d with | .scalar t => t ≠ "all" | .mapping _ => true with
    | [] => .dict (some ⟨.mapping ∅, ∅⟩)
    | _ :: rest => .stream rest

def YamlConfig.ensureGroup (group : String) (c : YamlConfig) : Except PyError YamlConfig :=
  if group = "all" then .ok c.withAll
  else do
    let a ← c.getAll
    if group ∈ a.children.keys then .ok c
    else .ok (.dict (some { a with children := a.children.setItem group ⟨.mapping ∅, none⟩ }))

def YamlConfig.ensureRequiredGroups (groups : List String) (c : YamlConfig) :
    Except PyError YamlConfig :=
  groups.foldlM (fun c g => c.ensureGroup g) c

end Kubespray.Inventory

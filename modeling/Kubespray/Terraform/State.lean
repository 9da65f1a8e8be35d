import Kubespray.Lib.Generator
import Kubespray.Lib.OrderedDict

/-! The state files that contrib/terraform/terraform.py reads, and what it makes of them:
convert_to_v3_structure and iterresources. -/
namespace Kubespray.Terraform

/-- What json.load makes of a text. A float is kept as Python prints it; an object has its keys
only once. -/
inductive Json where
  | null
  | bool (b : Bool)
  | num (n : Int)
  | float (repr : String)
  | str (s : String)
  | arr (items : List Json)
  | obj (fields : List (String × Json))

abbrev Attrs := OrderedDict String Json

namespace Json

def isStr (s : String) : Json → Bool
  | .str t => t = s
  | _ => false

end Json

inductive PyError where
  | keyError (key : String)
  | valueError (message : String) (args : List String)
  | typeError
  | indexError
  | attributeError
  deriving DecidableEq

/-- What the program leaves to Python: the text that `%s` prints for a value, the text that `%r`
prints, and the integer that `int` reads. -/
structure Python where
  str : Json → String
  repr : Json → String
  int : Json → Except PyError Int
  str_str : ∀ s, str (.str s) = s
  int_num : ∀ n, int (.num n) = .ok n

section Convert
variable (random : Nat → Nat)

mutual

/-- convert_to_v3_structure. The number counts the calls of random.randint so far. -/
def convertToV3Structure : Json → String → Nat → Except PyError (Attrs × Nat)
  | .str s, pre, n => .ok ((∅ : Attrs).setItem (pre ++ toString (random n)) (.str s), n + 1)
  | .obj fields, pre, n => convertFields fields pre ∅ n
  | _, _, _ => .error .attributeError

/-- The loop over the attributes. -/
def convertFields : List (String × Json) → String → Attrs → Nat → Except PyError (Attrs × Nat)
  | [], _, result, n => .ok (result, n)
  | (key, value) :: fields, pre, result, n => do
    let (result, n) ← convertField key value pre result n
    convertFields fields pre result n

/-- One round of the loop over the attributes. -/
def convertField (key : String) : Json → String → Attrs → Nat → Except PyError (Attrs × Nat)
  | .arr items, pre, result, n =>
    let result :=
      if items.length = 0 then result else result.setItem (pre ++ key ++ ".#") (.num items.length)
    convertItems key items 0 pre result n
  | .obj fields, pre, result, n =>
    let result := result.setItem (pre ++ key ++ ".%") (.num fields.length)
    .ok (result.setAll (fields.map fun p => (pre ++ key ++ "." ++ p.1, p.2)), n)
  | value, pre, result, n => .ok (result.setItem (pre ++ key) value, n)

/-- The loop over the items of a list, from the index on. -/
def convertItems (key : String) :
    List Json → Nat → String → Attrs → Nat → Except PyError (Attrs × Nat)
  | [], _, _, result, n => .ok (result, n)
  | v :: items, i, pre, result, n => do
    let (converted, n) ← convertToV3Structure v (pre ++ key ++ "." ++ toString i ++ ".") n
    convertItems key items (i + 1) pre (result.setAll converted.entries) n

end

end Convert

example : (convertToV3Structure (fun _ => 7) (.obj [("name", .str "k8s-master-1"),
      ("security_groups", .arr [.str "k8s"]), ("metadata", .obj [("ssh_user", .str "core")])])
    "" 0).toOption.map (fun p => p.1.keys) = some ["name", "security_groups.#",
      "security_groups.0.7", "metadata.%", "metadata.ssh_user"] := by decide

structure Module where
  path : List String
  /-- The key of each resource and its primary attributes. -/
  resources : OrderedDict String Attrs

inductive Mode where
  | managed
  | data
  deriving DecidableEq

structure Instance where
  indexKey : Option Json
  attributes : Attrs

structure ResourceV4 where
  type : String
  name : String
  mode : Mode
  provider : String
  instances : List Instance

inductive State where
  | v3 (modules : List Module)
  | v4 (resources : List ResourceV4)
  | other (version : Int)

/-- What iterresources yields: of a resource only its primary attributes are read later. -/
structure Item where
  moduleName : String
  key : String
  attributes : Attrs

section Resources
variable (py : Python) (random : Nat → Nat)

/-- `resource['provider'].split('.')[-1]` -/
def lastPart (provider : String) : String :=
  String.ofList (provider.toList.reverse.takeWhile (· ≠ '.')).reverse

def instanceKey (r : ResourceV4) (i : Instance) : String :=
  let key := r.type ++ "." ++ r.name
  match i.indexKey with
  | none => key
  | some index => key ++ "." ++ py.str index

def iterModules : List Module → Generator PyError Item
  | [] => ⟨[], none⟩
  | m :: ms =>
    match m.path.getLast? with
    | none => ⟨[], some .indexError⟩
    | some name => .append (.ofList (m.resources.entries.map fun e => ⟨name, e.1, e.2⟩)) (iterModules ms)

def iterInstances : List (ResourceV4 × Instance) → Nat → Generator PyError Item × Nat
  | [], n => (⟨[], none⟩, n)
  | (r, i) :: rest, n =>
    match convertToV3Structure random (.obj i.attributes.entries) "" n with
    | .error e => (⟨[], some e⟩, n)
    | .ok (attributes, n) =>
      let (g, n) := iterInstances rest n
      (⟨⟨lastPart r.provider, instanceKey py r i, attributes⟩ :: g.items, g.raises⟩, n)

def iterState : State → Nat → Generator PyError Item × Nat
  | .v3 modules, n => (iterModules modules, n)
  | .v4 resources, n =>
    iterInstances py random (resources.flatMap fun r => r.instances.map (r, ·)) n
  | .other version, n =>
    (⟨[], some (.keyError ("tfstate version " ++ toString version ++ " not supported"))⟩, n)

def iterresources : List State → Nat → Generator PyError Item
  | [], _ => ⟨[], none⟩
  | state :: states, n =>
    let (g, n) := iterState py random state n
    g.append (iterresources states n)

end Resources

end Kubespray.Terraform

import Kubespray.Lib.Fields
import Kubespray.Terraform.Hosts
import Kubespray.Terraform.Query

/-! The snippet of /etc/hosts that terraform.py prints, and what is read from it. -/
namespace Kubespray.Terraform
open Fields

/-- `attrs['ansible_ssh_host']`, a string for `ljust`. -/
def sshHost (h : Host) : Except PyError String := do
  match ← getAttr h.attrs "ansible_ssh_host" with
  | .str ip => return ip
  | _ => .error .attributeError

def ljust (width : ℕ) (cs : List Char) : List Char := cs ++ List.replicate (width - cs.length) ' '

/-- `'{}\t{}'.format(attrs['ansible_ssh_host'].ljust(16), name)` -/
def hostfileLine (ip name : String) : List Char := ljust 16 ip.toList ++ '\t' :: name.toList

def beginLine : List Char := "## begin hosts generated by terraform.py ##".toList

def endLine : List Char := "## end hosts generated by terraform.py ##".toList

def queryHostfile (hosts : List Host) : Except PyError (List Char) := do
  let out ← hosts.mapM fun h => do
    let ip ← sshHost h
    return hostfileLine ip h.name
  return ['\n'].intercalate (beginLine :: (out ++ [endLine]))

/-- What a line of a hosts file says of a name. -/
def lineAddress (name line : List Char) : Option (List Char) :=
  match ofLine line with
  | ip :: names => if names.contains name then some ip else none
  | [] => none

/-- The address of a name in a hosts file: the first line that has the name. -/
def resolve (text name : List Char) : Option (List Char) :=
  (splitChar '\n' text).findSome? (lineAddress name)

section ReadBack

/-- What can stand as one word on a line. -/
def Word (cs : List Char) : Prop := ∀ c ∈ cs, isBlank c = false ∧ c ≠ '#' ∧ c ≠ '\n'

/-- A name that is a word, and an address that is one, or is empty. -/
structure Listable (h : Host) : Prop where
  name_ne_nil : h.name ≠ ""
  name : Word h.name.toList
  ip : ∀ ip, sshHost h = .ok ip → Word ip.toList

theorem ofLine_hostfileLine {ip name : String} (hip : Word ip.toList) (hname : Word name.toList) :
    ofLine (hostfileLine ip name) = [ip.toList, name.toList].filter (· ≠ []) := by
  have hblank : ∀ w, Word w → ∀ c ∈ w, isBlank c = false := fun w hw c hc => (hw c hc).1
  have hcomment : '#' ∉ hostfileLine ip name := by
    simp only [hostfileLine, ljust, List.mem_append, List.mem_cons, List.mem_replicate, not_or]
    exact ⟨⟨fun hc => (hip _ hc).2.1 rfl, by simp⟩, by decide, fun hc => (hname _ hc).2.1 rfl⟩
  rw [ofLine_of_no_comment hcomment, hostfileLine, ljust, List.append_assoc]
  have hpair : [ip.toList, name.toList].filter (· ≠ []) =
      [ip.toList].filter (· ≠ []) ++ [name.toList].filter (· ≠ []) := by
    rw [← List.filter_append, List.singleton_append]
  cases 16 - ip.toList.length with
  | zero =>
    rw [List.replicate_zero, List.nil_append, words_append_tab (hblank _ hip),
      words_word (hblank _ hname), hpair]
  | succ n =>
    rw [List.replicate_succ, List.cons_append, words_append (hblank _ hip), words_replicate,
      words_blank (by decide), words_word (hblank _ hname), hpair]

theorem lineAddress_hostfileLine {ip own name : String} (hip : Word ip.toList) (hown : Word own.toList)
    (hne : own ≠ "") : lineAddress name.toList (hostfileLine ip own) =
      if own = name ∧ ip ≠ "" then some ip.toList else none := by
  have howne : own.toList ≠ [] := by simpa using hne
  rw [lineAddress, ofLine_hostfileLine hip hown]
  by_cases hempty : ip = ""
  · simp [hempty, howne]
  · have hipne : ip.toList ≠ [] := by simpa using hempty
    simp [hipne, howne, hempty, String.toList_inj, eq_comm]

theorem newline_not_mem {ip name : String} (hip : Word ip.toList) (hname : Word name.toList) :
    '\n' ∉ hostfileLine ip name := by
  simp only [hostfileLine, ljust, List.mem_append, List.mem_cons, List.mem_replicate, not_or]
  exact ⟨⟨fun hc => (hip _ hc).2.2 rfl, by simp⟩, by decide, fun hc => (hname _ hc).2.2 rfl⟩

def addressOf (h : Host) : String :=
  match sshHost h with
  | .ok ip => ip
  | .error _ => ""

theorem queryHostfile_eq_ok_iff (hosts : List Host) (text : List Char) :
    queryHostfile hosts = .ok text ↔ (∀ h ∈ hosts, ∃ ip, sshHost h = .ok ip) ∧
      text = ['\n'].intercalate
        (beginLine :: (hosts.map (fun h => hostfileLine (addressOf h) h.name) ++ [endLine])) := by
  have hline : ∀ (h : Host) (line : List Char), (do
      let ip ← sshHost h
      return hostfileLine ip h.name : Except PyError (List Char)) = .ok line ↔
        (∃ ip, sshHost h = .ok ip) ∧ line = hostfileLine (addressOf h) h.name := by
    intro h line
    rw [addressOf]
    cases sshHost h with
    | error e => simp [bind, Except.bind]
    | ok ip => simp [bind, Except.bind, pure, Except.pure, eq_comm]
  rw [queryHostfile]
  constructor
  · intro h
    obtain ⟨out, hout, htext⟩ := Runs.bind_eq_ok h
    obtain ⟨hall, rfl⟩ := (Runs.mapM_eq_ok_iff hline hosts out).mp hout
    exact ⟨hall, (Except.ok.inj htext).symm⟩
  · rintro ⟨hall, rfl⟩
    rw [(Runs.mapM_eq_ok_iff hline hosts _).mpr ⟨hall, rfl⟩]
    rfl

def listed (name ip : String) : Host where
  name := name
  attrs := (∅ : Attrs).setItem "ansible_ssh_host" (.str ip)
  groups := []

/-- The first k8s-node-1 has no address. -/
def listedHosts : List Host :=
  [listed "k8s-node-1" "", listed "k8s-master" "10.0.0.1", listed "k8s-node-1" "203.0.113.20"]

theorem listed_listable {name ip : String} (hne : name ≠ "")
    (hname : (name.toList.all fun c => !isBlank c && c != '#' && c != '\n') = true)
    (hip : (ip.toList.all fun c => !isBlank c && c != '#' && c != '\n') = true) :
    Listable (listed name ip) := by
  refine ⟨hne, fun c hc => ?_, fun ip' h c hc => ?_⟩
  · simpa [and_assoc] using List.all_eq_true.mp hname c hc
  · obtain rfl : ip = ip' := Except.ok.inj h
    simpa [and_assoc] using List.all_eq_true.mp hip c hc

end ReadBack

end Kubespray.Terraform

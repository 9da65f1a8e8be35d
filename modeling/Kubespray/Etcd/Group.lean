import Kubespray.Lib.IpAddress
import Mathlib.Data.List.Enum

/-! The hosts of groups['etcd'] and the variables kubespray-defaults derives for them. -/
namespace Kubespray.Etcd
variable {α : Type}

/-- What the inventory sets for a host, with its fallback address. hostvars shows
other hosts these values only, not the role defaults derived from them. -/
structure Host (α : Type) where
  inventoryHostname : String
  ip : Option α
  accessIp : Option α
  etcdAccessAddressVar : Option α
  etcdMemberNameVar : Option String
  fallbackIp : α
  deriving DecidableEq

def Host.etcdAddress (h : Host α) : α := h.ip.getD h.fallbackIp

def Host.etcdAccessAddress (h : Host α) : α :=
  h.etcdAccessAddressVar.getD (h.accessIp.getD h.etcdAddress)

/-- The address other hosts' templates use for `h`:
`hostvars[h].etcd_access_address | default(hostvars[h].ip | default(fallback_ips[h]))`. -/
def Host.hostvarsAddress (h : Host α) : α :=
  h.etcdAccessAddressVar.getD (h.ip.getD h.fallbackIp)

/-- The hosts of groups['etcd'], in order. -/
structure EtcdGroup (α : Type) where
  hosts : List (Host α)
  names_nodup : (hosts.map Host.inventoryHostname).Nodup

/-- `"etcd" + loop.index|string`, where loop.index counts from one. -/
def indexName (i : Nat) : String := "etcd" ++ toString (i + 1)

/-- etcd_member_name: the inventory's value, else the default template, a loop over
the group that prints something for the host itself only. -/
def EtcdGroup.etcdMemberName (g : EtcdGroup α) (h : Host α) : String :=
  h.etcdMemberNameVar.getD (String.join (g.hosts.zipIdx.map fun (x, i) =>
    if x.inventoryHostname = h.inventoryHostname then x.etcdMemberNameVar.getD (indexName i)
    else ""))

/-- The two addresses differ only where access_ip is set to something else than
the address the templates fall back to. -/
theorem Host.hostvarsAddress_eq_iff (h : Host α) :
    h.etcdAccessAddress = h.hostvarsAddress ↔
      h.etcdAccessAddressVar ≠ none ∨ h.accessIp = none ∨ h.accessIp = some h.etcdAddress := by
  cases hv : h.etcdAccessAddressVar <;> cases ha : h.accessIp <;>
    simp [Host.etcdAccessAddress, Host.hostvarsAddress, Host.etcdAddress, hv, ha]

theorem EtcdGroup.eq_of_name_eq (g : EtcdGroup α) {a b : Host α} (ha : a ∈ g.hosts)
    (hb : b ∈ g.hosts) (h : a.inventoryHostname = b.inventoryHostname) : a = b :=
  List.inj_on_of_nodup_map g.names_nodup ha hb h

end Kubespray.Etcd

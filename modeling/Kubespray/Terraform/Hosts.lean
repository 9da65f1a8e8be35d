import Kubespray.Lib.Runs
import Kubespray.Terraform.Parsers

/-! What the parsers of the two providers return: the inversion of each, and the attributes that
the later passes read. -/
namespace Kubespray.Terraform

theorem getAttr_eq_ok_iff (raw : Attrs) (key : String) (v : Json) :
    getAttr raw key = .ok v ↔ raw.lookup key = some v := by
  rw [getAttr]
  cases raw.lookup key <;> simp

theorem asStr_eq_ok_iff (v : Json) (s : String) : asStr v = .ok s ↔ v = .str s := by
  cases v <;> simp [asStr]

theorem strAttr_eq_ok_iff (raw : Attrs) (key s : String) :
    strAttr raw key = .ok s ↔ raw.lookup key = some (.str s) := by
  constructor
  · intro h
    obtain ⟨v, hv, hs⟩ := Runs.bind_eq_ok h
    rw [(getAttr_eq_ok_iff raw key v).mp hv, (asStr_eq_ok_iff v s).mp hs]
  · intro h
    rw [strAttr, (getAttr_eq_ok_iff raw key _).mpr h]
    rfl

section Parsers
variable (py : Python)

theorem lookup_addVolumes {raw attrs attrs' : Attrs} (h : addVolumes py raw attrs = .ok attrs')
    (k : String) (hk : k.toList.head? ≠ some 'd') : attrs'.lookup k = attrs.lookup k := by
  have hdevices : k ∉ (volumeDevices raw).map Prod.fst := by
    intro hm
    obtain ⟨e, he, hname⟩ := List.mem_map.mp hm
    obtain ⟨p, -, rfl⟩ := List.mem_map.mp he
    apply hk
    rw [← hname]
    simp
  rw [addVolumes] at h
  split at h
  · rw [Except.ok.inj h]
  · obtain ⟨n, -, h⟩ := Runs.bind_eq_ok h
    rw [← Except.ok.inj h]
    split
    · exact OrderedDict.lookup_setAll_of_not_mem _ _ _ hdevices
    · rfl

theorem lookup_withPrivateIp (raw attrs : Attrs) (ip : Json) (k : String) (hk : k ≠ "private_ipv4") :
    (withPrivateIp raw ip attrs).lookup k = attrs.lookup k := by
  rw [withPrivateIp]
  split
  · rw [OrderedDict.lookup_setItem, if_neg hk]
  · rfl

theorem lookup_withSshUser (raw attrs : Attrs) (k : String) (hk : k ≠ "ansible_ssh_user") :
    (withSshUser raw attrs).lookup k = attrs.lookup k := by
  rw [withSshUser]
  split
  · rw [OrderedDict.lookup_setItem, if_neg hk]
  · rfl

/-- The groups of an instance, before the one of calculate_mantl_vars. -/
def instanceGroups (raw : Attrs) (image flavor region : String) (own : List String) : List String :=
  ["os_image=" ++ image, "os_flavor=" ++ flavor] ++
    (parseDict raw "metadata" '.').entries.map (metadataGroup py) ++ ["os_region=" ++ region] ++ own

/-- What openstack_host reads off the attributes, and the dictionary it makes of it. -/
structure Parts where
  accessIpV4 : Json
  accessIpV6 : Json
  ip : Json
  keyPair : Json
  sshHost : Json
  network : List Attrs
  id : String
  image : String
  flavor : String
  region : String
  own : List String
  attrs : Attrs

/-- The host that openstack_host makes of these. -/
structure Built (raw : Attrs) (p : Parts) (h : Host) : Prop where
  id_eq : raw.lookup "id" = some (.str p.id)
  attrs_eq : addVolumes py raw (withSshUser raw ((withPrivateIp raw p.ip
    (instanceVars raw p.accessIpV4 p.accessIpV6 p.ip p.id p.keyPair p.network)).setAll
      [("ansible_ssh_host", p.sshHost), ("publicly_routable", .bool true)])) = .ok p.attrs
  own_eq : kubesprayGroups (parseDict raw "metadata" '.') = .ok p.own
  host_eq : ∃ name, h = calculateMantlVars ⟨name, p.attrs.setItem "role"
    (((parseDict raw "metadata" '.').lookup "role").getD (.str "none")),
    instanceGroups py raw p.image p.flavor p.region p.own⟩

theorem openstackHost_built (raw : Attrs) (h : Host) (hh : openstackHost py raw = .ok h) :
    ∃ p, Built py raw p h := by
  rw [openstackHost] at hh
  cases hin : openstackHostInner py raw with
  | error e => simp [hin, Except.map] at hh
  | ok inner =>
    rw [hin] at hh
    obtain rfl := Except.ok.inj hh
    rw [openstackHostInner] at hin
    obtain ⟨name, -, hin⟩ := Runs.bind_eq_ok hin
    obtain ⟨accessIpV4, -, hin⟩ := Runs.bind_eq_ok hin
    obtain ⟨accessIpV6, -, hin⟩ := Runs.bind_eq_ok hin
    obtain ⟨ip, -, hin⟩ := Runs.bind_eq_ok hin
    obtain ⟨id, hid, hin⟩ := Runs.bind_eq_ok hin
    obtain ⟨keyPair, -, hin⟩ := Runs.bind_eq_ok hin
    obtain ⟨network, -, hin⟩ := Runs.bind_eq_ok hin
    obtain ⟨sshHost, -, hin⟩ := Runs.bind_eq_ok hin
    obtain ⟨attrs, hattrs, hin⟩ := Runs.bind_eq_ok hin
    obtain ⟨imageId, -, hin⟩ := Runs.bind_eq_ok hin
    obtain ⟨flavorName, -, hin⟩ := Runs.bind_eq_ok hin
    obtain ⟨regionText, -, hin⟩ := Runs.bind_eq_ok hin
    obtain ⟨groups, hgroups, hin⟩ := Runs.bind_eq_ok hin
    obtain rfl := Except.ok.inj hin
    exact ⟨⟨accessIpV4, accessIpV6, ip, keyPair, sshHost, network, id, imageId, flavorName,
      regionText, groups, attrs⟩, (strAttr_eq_ok_iff raw "id" id).mp hid, hattrs, hgroups, name, rfl⟩

section Built
variable {raw : Attrs} {p : Parts} {h : Host} (hb : Built py raw p h)
include hb

/-- What the updates of the dictionary leave as it was. -/
theorem Built.lookup_kept (k : String) (hk : k ∈ ["id", "metadata", "access_ip"]) :
    h.attrs.lookup k =
      (instanceVars raw p.accessIpV4 p.accessIpV6 p.ip p.id p.keyPair p.network).lookup k := by
  have hdiff : k.toList.head? ≠ some 'd' ∧ k ≠ "private_ipv4" ∧ k ≠ "ansible_ssh_user" ∧
      k ≠ "ansible_ssh_host" ∧ k ≠ "publicly_routable" ∧ k ≠ "role" ∧
      k ≠ "consul_is_server" := by
    simp only [List.mem_cons, List.not_mem_nil, or_false] at hk
    rcases hk with rfl | rfl | rfl <;> decide
  obtain ⟨hd, hprivate, huser, hhost, hroutable, hrole, hconsul⟩ := hdiff
  obtain ⟨name, rfl⟩ := hb.host_eq
  simp only [calculateMantlVars, OrderedDict.lookup_setItem, if_neg hconsul, if_neg hrole]
  rw [lookup_addVolumes py hb.attrs_eq k hd, lookup_withSshUser raw _ k huser]
  simp only [OrderedDict.setAll_cons, OrderedDict.setAll_nil, OrderedDict.lookup_setItem,
    if_neg hhost, if_neg hroutable]
  exact lookup_withPrivateIp raw _ p.ip k hprivate

/-- The hosts of OpenStack are publicly routable, whatever their metadata. -/
theorem Built.groups :
    h.groups = instanceGroups py raw p.image p.flavor p.region p.own ++ ["publicly_routable"] := by
  obtain ⟨name, rfl⟩ := hb.host_eq
  have hlookup : (p.attrs.setItem "role" (((parseDict raw "metadata" '.').lookup "role").getD
      (.str "none"))).lookup "publicly_routable" = some (.bool true) := by
    rw [OrderedDict.lookup_setItem, if_neg (by decide),
      lookup_addVolumes py hb.attrs_eq _ (by decide), lookup_withSshUser raw _ _ (by decide)]
    simp
  rw [calculateMantlVars, hlookup]
  rfl

end Built

/-- What the second pass reads of a host that openstack_host returned. -/
structure IsInstance (raw : Attrs) (h : Host) : Prop where
  id : ∃ id, raw.lookup "id" = some (.str id) ∧ h.attrs.lookup "id" = some (.str id)
  metadata : h.attrs.lookup "metadata" = some (dictValue (parseDict raw "metadata" '.'))
  accessIp : "access_ip" ∈ h.attrs.keys

theorem openstackHost_spec (raw : Attrs) (h : Host) (hh : openstackHost py raw = .ok h) :
    IsInstance raw h := by
  obtain ⟨p, hb⟩ := openstackHost_built py raw h hh
  refine ⟨⟨p.id, hb.id_eq, ?_⟩, ?_, ?_⟩
  · rw [hb.lookup_kept py "id" (by decide)]
    simp [instanceVars]
  · rw [hb.lookup_kept py "metadata" (by decide)]
    simp [instanceVars]
  · rw [OrderedDict.mem_keys_iff]
    exact ⟨p.accessIpV4, by rw [hb.lookup_kept py "access_ip" (by decide)]; simp [instanceVars]⟩

theorem packetDevice_spec (raw : Attrs) (h : Host) (hh : packetDevice py raw = .ok h) :
    h.attrs.lookup "metadata" = none := by
  rw [packetDevice] at hh
  obtain ⟨name, -, hh⟩ := Runs.bind_eq_ok hh
  obtain ⟨id, -, hh⟩ := Runs.bind_eq_ok hh
  obtain ⟨operatingSystem, -, hh⟩ := Runs.bind_eq_ok hh
  obtain ⟨lockedForm, -, hh⟩ := Runs.bind_eq_ok hh
  obtain ⟨locked, -, hh⟩ := Runs.bind_eq_ok hh
  obtain ⟨plan, -, hh⟩ := Runs.bind_eq_ok hh
  obtain ⟨projectId, -, hh⟩ := Runs.bind_eq_ok hh
  obtain ⟨state, -, hh⟩ := Runs.bind_eq_ok hh
  obtain ⟨address, -, hh⟩ := Runs.bind_eq_ok hh
  obtain ⟨address6, -, hh⟩ := Runs.bind_eq_ok hh
  obtain ⟨private4, -, hh⟩ := Runs.bind_eq_ok hh
  obtain ⟨os, -, hh⟩ := Runs.bind_eq_ok hh
  obtain ⟨stateText, -, hh⟩ := Runs.bind_eq_ok hh
  obtain ⟨planText, -, hh⟩ := Runs.bind_eq_ok hh
  obtain ⟨tagTexts, -, hh⟩ := Runs.bind_eq_ok hh
  obtain rfl := Except.ok.inj hh
  split <;> simp

end Parsers

section Types

/-- The type that PARSERS is asked for. -/
def itemType (item : Item) : Option String := (splitKey '.' item.key).map Prod.fst

theorem resourceType_eq_ok_iff (item : Item) (type : String) :
    resourceType item.key = .ok type ↔ itemType item = some type := by
  rw [resourceType, itemType]
  cases splitKey '.' item.key with
  | none => simp
  | some p => simp

theorem hostOf_of_parsers (py : Python) (item : Item) (type : String)
    (parser : Attrs → Except PyError Host) (ht : itemType item = some type)
    (hp : parsers py type = some parser) :
    hostOf py item = (parser item.attributes).map some := by
  rw [hostOf, (resourceType_eq_ok_iff item type).mpr ht]
  simp only [bind, Except.bind, hp]

theorem map_some_eq_ok {x : Except PyError Host} {h : Host} (hx : x.map some = .ok (some h)) :
    x = .ok h := by
  cases x with
  | error e => cases hx
  | ok h' => rw [Option.some.inj (Except.ok.inj hx)]

theorem hostOf_cases (py : Python) (item : Item) (h : Host) (hh : hostOf py item = .ok (some h)) :
    (itemType item = some packetType ∧ packetDevice py item.attributes = .ok h) ∨
      (itemType item = some openstackType ∧ openstackHost py item.attributes = .ok h) := by
  obtain ⟨type, ht, hrest⟩ := Runs.bind_eq_ok hh
  have htype := (resourceType_eq_ok_iff item type).mp ht
  by_cases hpacket : type = packetType
  · subst hpacket
    rw [hostOf_of_parsers py item _ (packetDevice py) htype (if_pos rfl)] at hh
    exact .inl ⟨htype, map_some_eq_ok hh⟩
  by_cases hopenstack : type = openstackType
  · subst hopenstack
    have hparser : parsers py openstackType = some (openstackHost py) := by
      rw [parsers, if_neg (by decide), if_pos rfl]
    rw [hostOf_of_parsers py item _ _ htype hparser] at hh
    exact .inr ⟨htype, map_some_eq_ok hh⟩
  · rw [parsers, if_neg hpacket, if_neg hopenstack] at hrest
    cases hrest

end Types
end Kubespray.Terraform

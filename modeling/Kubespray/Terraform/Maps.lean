import Kubespray.Terraform.FlatForm
import Kubespray.Terraform.Hosts

/-! Maps in the flat form: when parse_dict gives back the map that convert_to_v3_structure
flattened, and what becomes of the metadata of an instance. -/
namespace Kubespray.Terraform

section Maps
variable (random : Nat → Nat) (attrs : Attrs) (k : String) (m : Attrs)

/-- What parse_dict makes of a flattened map: it leaves out "#", and keeps the count under "%"
where the map has no such key. -/
theorem lookup_parseDict_converted (hkeys : ∀ key ∈ attrs.keys, '.' ∉ key.toList)
    (hm : attrs.lookup k = some (.obj m.entries)) (n : Nat) (r : Attrs × Nat)
    (h : convertToV3Structure random (.obj attrs.entries) "" n = .ok r) (x : String) :
    (parseDict r.1 k '.').lookup x = if x = "#" then none
      else (m.lookup x).or (if x = "%" then some (.num m.entries.length) else none) := by
  have hk : '.' ∉ k.toList := hkeys k ((OrderedDict.mem_keys_iff attrs k).mpr ⟨_, hm⟩)
  obtain ⟨r1, r2, hfresh, hround, hparts⟩ := parts_of_converted random attrs hkeys k _ hm n r h
  have hself := partOf_self k hk x
  have hread : ∀ d : Attrs, d.lookup (k ++ "." ++ x) =
      (d.filterKeys (partOf k)).lookup (k ++ "." ++ x) := by
    intro d
    rw [OrderedDict.lookup_filterKeys, if_pos hself]
  have hinj : Function.Injective fun y : String => "" ++ k ++ "." ++ y := by
    intro y z hyz
    simpa using hyz
  rw [lookup_parseDict r.1 k hk x, hread r.1, hparts, ← hread r2.1, ← Except.ok.inj hround]
  have hblock := OrderedDict.lookup_setAll_map
    (r1.1.setItem ("" ++ k ++ ".%") (.num m.entries.length)) m _ hinj x
  have hcount : k ++ "." ++ x = k ++ ".%" ↔ x = "%" := by
    rw [show k ++ ".%" = k ++ "." ++ "%" by simp [String.append_assoc]]
    exact String.append_right_inj _
  simp only [String.empty_append] at hblock ⊢
  rw [hblock, OrderedDict.lookup_setItem, hread r1.1, hfresh, OrderedDict.lookup_empty]
  simp only [hcount]

theorem parseDict_converted_iff (hkeys : ∀ key ∈ attrs.keys, '.' ∉ key.toList)
    (hm : attrs.lookup k = some (.obj m.entries)) (n : Nat) (r : Attrs × Nat)
    (h : convertToV3Structure random (.obj attrs.entries) "" n = .ok r) :
    (∀ x, (parseDict r.1 k '.').lookup x = m.lookup x) ↔ "%" ∈ m.keys ∧ "#" ∉ m.keys := by
  have hlookup := lookup_parseDict_converted random attrs k m hkeys hm n r h
  constructor
  · intro hsame
    constructor
    · by_contra hno
      have hcount := hlookup "%"
      rw [hsame "%", (OrderedDict.lookup_eq_none_iff m "%").mpr hno] at hcount
      simp at hcount
    · rw [← OrderedDict.lookup_eq_none_iff, ← hsame "#", hlookup "#", if_pos rfl]
  · intro hcond x
    obtain ⟨hpercent, hhash⟩ := hcond
    rw [hlookup x]
    split
    case isTrue hx => rw [hx, (OrderedDict.lookup_eq_none_iff m "#").mpr hhash]
    case isFalse =>
      split
      case isTrue hx =>
        obtain ⟨v, hv⟩ := (OrderedDict.mem_keys_iff m "%").mp hpercent
        rw [hx, hv, Option.some_or]
      case isFalse => rw [Option.or_none]

/-- The map `m` under the name `k` comes back as it was, and so does the metadata of a host. -/
structure Survives (py : Python) (n : Nat) : Prop where
  dict : ∃ r, convertToV3Structure random (.obj attrs.entries) "" n = .ok r ∧
    ∀ x, (parseDict r.1 k '.').lookup x = m.lookup x
  host : k = "metadata" → ∀ r h, convertToV3Structure random (.obj attrs.entries) "" n = .ok r →
    openstackHost py r.1 = .ok h →
    (∃ metadata : Attrs, h.attrs.lookup "metadata" = some (dictValue metadata) ∧
      ∀ x, metadata.lookup x = m.lookup x) ∧
    ∃ image flavor region own groups, kubesprayGroups m = .ok own ∧
      h.groups = ["os_image=" ++ image, "os_flavor=" ++ flavor] ++ groups ++
        ["os_region=" ++ region] ++ own ++ ["publicly_routable"] ∧
      groups.Perm (m.entries.map (metadataGroup py))

theorem host_of_dict (py : Python) (raw : Attrs) (h : Host) (hh : openstackHost py raw = .ok h)
    (hdict : ∀ x, (parseDict raw "metadata" '.').lookup x = m.lookup x) :
    (∃ metadata : Attrs, h.attrs.lookup "metadata" = some (dictValue metadata) ∧
      ∀ x, metadata.lookup x = m.lookup x) ∧
    ∃ image flavor region own groups, kubesprayGroups m = .ok own ∧
      h.groups = ["os_image=" ++ image, "os_flavor=" ++ flavor] ++ groups ++
        ["os_region=" ++ region] ++ own ++ ["publicly_routable"] ∧
      groups.Perm (m.entries.map (metadataGroup py)) := by
  refine ⟨⟨_, (openstackHost_spec py raw h hh).metadata, hdict⟩, ?_⟩
  obtain ⟨p, hb⟩ := openstackHost_built py raw h hh
  refine ⟨p.image, p.flavor, p.region, p.own, _, ?_, hb.groups py,
    (OrderedDict.perm_of_lookup _ m hdict).map _⟩
  have hown := hb.own_eq
  rw [kubesprayGroups] at hown ⊢
  rwa [hdict] at hown

/-- A flat map survives exactly when the attributes can be converted at all and it has a key "%",
which stands in for the count, and none "#". -/
theorem survives_iff (py : Python) (n : Nat) (hkeys : ∀ key ∈ attrs.keys, '.' ∉ key.toList)
    (hm : attrs.lookup k = some (.obj m.entries)) :
    Survives random attrs k m py n ↔
      convertible (.obj attrs.entries) = true ∧ "%" ∈ m.keys ∧ "#" ∉ m.keys := by
  have hdict := parseDict_converted_iff random attrs k m hkeys hm n
  have hisOk := convertToV3Structure_isOk random (.obj attrs.entries) "" n
  constructor
  · intro h
    obtain ⟨r, hr, hsame⟩ := h.dict
    rw [← hisOk, hr]
    exact ⟨rfl, (hdict r hr).mp hsame⟩
  · intro h
    obtain ⟨hconv, hcond⟩ := h
    rw [hconv] at hisOk
    cases hr : convertToV3Structure random (.obj attrs.entries) "" n with
    | error e => simp [hr, Except.isOk, Except.toBool] at hisOk
    | ok r =>
      have hsame := (hdict r hr).mpr hcond
      refine ⟨⟨r, hr, hsame⟩, ?_⟩
      rintro rfl r' h hr' hh
      obtain rfl := Except.ok.inj (hr.symm.trans hr')
      exact host_of_dict m py r.1 h hh hsame

end Maps

def coreMetadata : Attrs := (∅ : Attrs).setItem "ssh_user" (.str "core")

/-- The attributes of an instance with one metadata item. -/
def coreAttrs : Attrs := (∅ : Attrs).setAll [
  ("name", .str "k8s-master-1"),
  ("metadata", .obj coreMetadata.entries)]

theorem coreAttrs_survives_iff : Survives (fun _ => 7) coreAttrs "metadata" coreMetadata scalarPython 0 ↔
    convertible (.obj coreAttrs.entries) = true ∧ "%" ∈ coreMetadata.keys ∧ "#" ∉ coreMetadata.keys :=
  survives_iff (fun _ => 7) coreAttrs "metadata" coreMetadata scalarPython 0 (by decide) (by rfl)

/-- The count of the items is read back as one of them. -/
theorem coreAttrs_gains_item : ¬ ∀ (attrs : Attrs) (k : String) (m : Attrs),
    (∀ key ∈ attrs.keys, '.' ∉ key.toList) → attrs.lookup k = some (.obj m.entries) →
      Survives (fun _ => 7) attrs k m scalarPython 0 := by
  intro h
  obtain ⟨r, hr, hsame⟩ := (h coreAttrs "metadata" coreMetadata (by decide) rfl).dict
  have hcount := lookup_parseDict_converted (fun _ => 7) coreAttrs "metadata" coreMetadata (by decide)
    rfl 0 r hr "%"
  rw [hsame "%"] at hcount
  simp [coreMetadata] at hcount

end Kubespray.Terraform

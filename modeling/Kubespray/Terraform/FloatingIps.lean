import Kubespray.Terraform.Hosts

/-! Floating IPs: which attributes the second pass over the hosts changes, and when these are a
matter of the host and its own associations alone. -/
namespace Kubespray.Terraform

section Update

/-- The associations of the instance. -/
def ownIps (A : List (String × Json)) (id : String) : List (String × Json) := A.filter (·.1 = id)

def ipDict (A : List (String × Json)) : OrderedDict String Json :=
  (∅ : OrderedDict String Json).setAll A

theorem lookup_ipDict (A : List (String × Json)) (id : String) :
    (ipDict A).lookup id = ((ownIps A id).getLast?).map Prod.snd := by
  rw [ipDict, OrderedDict.lookup_setAll_getLast?, OrderedDict.lookup_empty, Option.or_none, ownIps]

theorem ipDict_keys_eq_nil (A : List (String × Json)) : (ipDict A).keys = [] ↔ A = [] := by
  rw [ipDict, OrderedDict.keys_setAll, List.eq_nil_iff_forall_not_mem, List.eq_nil_iff_forall_not_mem]
  simp

/-- The update of one host by the floating IP of its id, if there is one. -/
def updated (ip? : Option Json) (unset : Bool) (h : Host) : Host :=
  let attrs := withFloatingIp ip? h.attrs
  { h with attrs := if unset then attrs.erase "access_ip" else attrs }

theorem lookup_withFloatingIp_metadata (ip? : Option Json) (attrs : Attrs) :
    (withFloatingIp ip? attrs).lookup "metadata" = attrs.lookup "metadata" := by
  cases ip? <;> simp [withFloatingIp]

theorem accessIp_mem_withFloatingIp (ip? : Option Json) (attrs : Attrs)
    (h : "access_ip" ∈ attrs.keys) : "access_ip" ∈ (withFloatingIp ip? attrs).keys := by
  cases ip? with
  | none => exact h
  | some ip => simp [withFloatingIp]

/-- A host with all that the second pass reads. -/
structure Updatable (h : Host) (id : String) (metadata : Json) : Prop where
  id : h.attrs.lookup "id" = some (.str id)
  metadata : h.attrs.lookup "metadata" = some metadata
  accessIp : "access_ip" ∈ h.attrs.keys

theorem updateHost_eq (ips : OrderedDict String Json) (h : Host) (id : String) (metadata : Json)
    (hu : Updatable h id metadata) :
    updateHost ips h = .ok (updated (ips.lookup id) (!usesAccessIp metadata) h) := by
  have hid := (strAttr_eq_ok_iff h.attrs "id" id).mpr hu.id
  have hmeta := (getAttr_eq_ok_iff (withFloatingIp (ips.lookup id) h.attrs) "metadata" metadata).mpr
    ((lookup_withFloatingIp_metadata _ _).trans hu.metadata)
  obtain ⟨accessIp, haccess⟩ := (OrderedDict.mem_keys_iff _ _).mp
    (accessIp_mem_withFloatingIp (ips.lookup id) h.attrs hu.accessIp)
  have haccess := (getAttr_eq_ok_iff _ _ _).mpr haccess
  have hstep : updateHost ips h = if usesAccessIp metadata then
      .ok { h with attrs := withFloatingIp (ips.lookup id) h.attrs }
      else .ok { h with attrs := (withFloatingIp (ips.lookup id) h.attrs).erase "access_ip" } := by
    simp only [updateHost, hid, hmeta, haccess, bind, Except.bind]
  rw [hstep]
  cases usesAccessIp metadata <;> rfl

/-- The hosts that are put out for the resources and the associations. -/
def hostsOutput (py : Python) (R : List Item) (A : List (String × Json)) :
    Except PyError (List Host) :=
  (withFloatingIps (iterhosts py (.ofList R)) (ipDict A)).toList

theorem hostsOutput_cons (py : Python) (R : List Item) (A : List (String × Json)) (hA : A ≠ []) :
    hostsOutput py R A = ((iterhosts py (.ofList R)).mapM (updateHost (ipDict A))).toList := by
  rw [hostsOutput, withFloatingIps, if_neg (mt (ipDict_keys_eq_nil A).mp hA), iterHostIps]

variable {py : Python} {R : List Item} {hosts : List Host}
  (hR : (iterhosts py (.ofList R)).toList = .ok hosts)
include hR

theorem hostsOutput_nil : hostsOutput py R [] = .ok hosts := by
  rw [hostsOutput, withFloatingIps, if_pos ((ipDict_keys_eq_nil []).mpr rfl), hR]

/-- Where all hosts have what the second pass reads, it only updates them. -/
theorem hostsOutput_eq (A : List (String × Json)) (hA : A ≠ []) (u : Host → Host)
    (hu : ∀ h ∈ hosts, updateHost (ipDict A) h = .ok (u h)) :
    hostsOutput py R A = .ok (hosts.map u) := by
  obtain ⟨hnone, hitems⟩ := (Generator.toList_eq_ok_iff _ _).mp hR
  rw [hostsOutput_cons py R A hA, Generator.mapM_of_ok _ (hitems.symm ▸ hu),
    Generator.toList_eq_ok_iff, hitems]
  exact ⟨hnone, rfl⟩

/-- No host lacks what the second pass reads when this does not raise. -/
theorem updateHost_ok (A : List (String × Json)) (hA : A ≠ []) (out : List Host)
    (hout : hostsOutput py R A = .ok out) (h : Host) (hh : h ∈ hosts) :
    ∃ h', updateHost (ipDict A) h = .ok h' := by
  obtain ⟨-, hitems⟩ := (Generator.toList_eq_ok_iff _ _).mp hR
  rw [hostsOutput_cons py R A hA, Generator.toList_eq_ok_iff] at hout
  exact (Generator.ok_of_mapM hout.1).2 h (hitems.symm ▸ hh)

theorem mem_hosts_iff (h : Host) : h ∈ hosts ↔ ∃ item ∈ R, hostOf py item = .ok (some h) := by
  obtain ⟨hnone, hitems⟩ := (Generator.toList_eq_ok_iff _ _).mp hR
  rw [← hitems]
  exact Generator.mem_through hnone h

theorem hostOf_ok (item : Item) (hitem : item ∈ R) : ∃ h?, hostOf py item = .ok h? := by
  obtain ⟨hnone, -⟩ := (Generator.toList_eq_ok_iff _ _).mp hR
  exact (Generator.ok_of_through hnone).2 item hitem

end Update

section Leaks

/-- The metadata has use_access_ip == "0". -/
def unsetsAccessIp (raw : Attrs) : Bool := !usesAccessIp (dictValue (parseDict raw "metadata" '.'))

/-- With the associations `A` the attributes of each host are a matter of the host and its own
associations, no associations make the inventory fail, and use_access_ip == "0" is heeded. -/
structure NoLeak (py : Python) (R : List Item) (A : List (String × Json)) (hosts : List Host) :
    Prop where
  completes : ∀ A', ∃ out, hostsOutput py R A' = .ok out
  own : ∀ A' out out', hostsOutput py R A = .ok out → hostsOutput py R A' = .ok out' →
    ∀ (i : Nat) h id, hosts[i]? = some h → h.attrs.lookup "id" = some (.str id) →
      ownIps A' id = ownIps A id → (out'[i]?).map Host.attrs = (out[i]?).map Host.attrs
  accessIp : ∀ out, hostsOutput py R A = .ok out → ∀ (i : Nat) h h' metadata, hosts[i]? = some h →
    out[i]? = some h' → h.attrs.lookup "metadata" = some metadata →
    usesAccessIp metadata = false → "access_ip" ∉ h'.attrs.keys

theorem IsInstance.updatable {raw : Attrs} {h : Host} (hi : IsInstance raw h) :
    ∃ id, raw.lookup "id" = some (.str id) ∧
      Updatable h id (dictValue (parseDict raw "metadata" '.')) := by
  obtain ⟨id, hraw, hid⟩ := hi.id
  exact ⟨id, hraw, hid, hi.metadata, hi.accessIp⟩

theorem accessIp_not_mem_updated (ip? : Option Json) (h : Host) :
    "access_ip" ∉ (updated ip? true h).attrs.keys := by
  simp [updated, OrderedDict.erase]

theorem updateHost_packet (ips : OrderedDict String Json) (h h' : Host)
    (hm : h.attrs.lookup "metadata" = none) : updateHost ips h ≠ .ok h' := by
  intro hok
  obtain ⟨id, -, hok⟩ := Runs.bind_eq_ok hok
  obtain ⟨metadata, hmeta, -⟩ := Runs.bind_eq_ok hok
  rw [getAttr_eq_ok_iff, lookup_withFloatingIp_metadata, hm] at hmeta
  cases hmeta

/-- A floating-IP association, of whatever instance. -/
def strayIp : List (String × Json) := [("", .null)]

variable {py : Python} {R : List Item} {A : List (String × Json)} {hosts : List Host}
  (hR : (iterhosts py (.ofList R)).toList = .ok hosts)
include hR

theorem NoLeak.noPacket (h : NoLeak py R A hosts) (item : Item) (hitem : item ∈ R) :
    itemType item ≠ some packetType := by
  intro ht
  obtain ⟨h?, hok⟩ := hostOf_ok hR item hitem
  have hparse := hostOf_of_parsers py item packetType (packetDevice py) ht (if_pos rfl)
  rw [hok] at hparse
  cases hpacket : packetDevice py item.attributes with
  | error e => simp [hpacket, Except.map] at hparse
  | ok d =>
    rw [hpacket] at hparse
    obtain rfl : h? = some d := Except.ok.inj hparse
    obtain ⟨out, hout⟩ := h.completes strayIp
    obtain ⟨d', hd'⟩ := updateHost_ok hR strayIp (by decide) out hout d
      ((mem_hosts_iff hR d).mpr ⟨item, hitem, hok⟩)
    exact updateHost_packet _ d d' (packetDevice_spec py _ d hpacket) hd'

theorem NoLeak.associated (h : NoLeak py R A hosts) (item : Item) (hitem : item ∈ R)
    (ht : itemType item = some openstackType) (hunset : unsetsAccessIp item.attributes = true) :
    ∃ id, item.attributes.lookup "id" = some (.str id) ∧ ownIps A id ≠ [] := by
  obtain ⟨h?, hok⟩ := hostOf_ok hR item hitem
  have hparser : parsers py openstackType = some (openstackHost py) := by
    rw [parsers, if_neg (by decide), if_pos rfl]
  have hparse := hostOf_of_parsers py item _ _ ht hparser
  rw [hok] at hparse
  cases hinstance : openstackHost py item.attributes with
  | error e => simp [hinstance, Except.map] at hparse
  | ok d =>
    rw [hinstance] at hparse
    obtain rfl : h? = some d := Except.ok.inj hparse
    obtain ⟨id, hraw, hup⟩ := (openstackHost_spec py _ d hinstance).updatable
    refine ⟨id, hraw, fun hnone => ?_⟩
    have hd : d ∈ hosts := (mem_hosts_iff hR d).mpr ⟨item, hitem, hok⟩
    obtain ⟨i, hi⟩ := List.mem_iff_getElem?.mp hd
    obtain ⟨out, hout⟩ := h.completes A
    have hheeded : usesAccessIp (dictValue (parseDict item.attributes "metadata" '.')) = false := by
      simpa [unsetsAccessIp] using hunset
    -- Without any association the host is put out as it was read.
    have hsame := h.own [] out hosts hout (hostsOutput_nil hR) i d id hi hup.id (by rw [hnone]; rfl)
    rw [hi] at hsame
    cases hd' : out[i]? with
    | none => simp [hd'] at hsame
    | some d' =>
      rw [hd'] at hsame
      have hattrs : d.attrs = d'.attrs := Option.some.inj hsame
      exact h.accessIp out hout i d d' _ hi hd' hup.metadata hheeded (hattrs ▸ hup.accessIp)

/-- What is put out for a host, given its own associations. -/
theorem hostsOutput_of (hpacket : ∀ item ∈ R, itemType item ≠ some packetType) :
    ∃ u : List (String × Json) → Host → Host, (∀ A', hostsOutput py R A' = .ok (hosts.map (u A'))) ∧
      ∀ h ∈ hosts, ∃ item ∈ R, itemType item = some openstackType ∧ ∃ id,
        item.attributes.lookup "id" = some (.str id) ∧
        Updatable h id (dictValue (parseDict item.attributes "metadata" '.')) ∧
        ∀ A', u A' h = if A' = [] then h else
          updated (((ownIps A' id).getLast?).map Prod.snd) (unsetsAccessIp item.attributes) h := by
  have hhosts : ∀ h ∈ hosts, ∃ item ∈ R, itemType item = some openstackType ∧ ∃ id,
      item.attributes.lookup "id" = some (.str id) ∧
        Updatable h id (dictValue (parseDict item.attributes "metadata" '.')) := by
    intro h hh
    obtain ⟨item, hitem, hok⟩ := (mem_hosts_iff hR h).mp hh
    rcases hostOf_cases py item h hok with ⟨ht, -⟩ | ⟨ht, hinstance⟩
    · exact absurd ht (hpacket item hitem)
    · exact ⟨item, hitem, ht, (openstackHost_spec py _ h hinstance).updatable⟩
  let u : List (String × Json) → Host → Host := fun A' h =>
    if A' = [] then h else (updateHost (ipDict A') h).toOption.getD h
  have hu : ∀ A' ≠ [], ∀ h ∈ hosts, updateHost (ipDict A') h = .ok (u A' h) := by
    intro A' hA' h hh
    obtain ⟨item, -, -, id, -, hup⟩ := hhosts h hh
    have hstep := updateHost_eq (ipDict A') h id _ hup
    simp only [u, if_neg hA', hstep, Except.toOption, Option.getD_some]
  refine ⟨u, fun A' => ?_, fun h hh => ?_⟩
  · by_cases hA' : A' = []
    · have hid : hosts.map (u A') = hosts := by simp [u, hA']
      rw [hid, hA', hostsOutput_nil hR]
    · exact hostsOutput_eq hR A' hA' (u A') (hu A' hA')
  · obtain ⟨item, hitem, ht, id, hraw, hup⟩ := hhosts h hh
    refine ⟨item, hitem, ht, id, hraw, hup, fun A' => ?_⟩
    by_cases hA' : A' = []
    · simp [u, hA']
    · have hstep := updateHost_eq (ipDict A') h id _ hup
      rw [lookup_ipDict] at hstep
      simp only [u, if_neg hA', hstep, Except.toOption, Option.getD_some]
      rfl

/-- Floating IPs stay with their hosts exactly when no resource is a packet device, and every
instance with use_access_ip == "0" has an association of its own. -/
theorem noLeak_iff : NoLeak py R A hosts ↔ (∀ item ∈ R, itemType item ≠ some packetType) ∧
    ∀ item ∈ R, itemType item = some openstackType → unsetsAccessIp item.attributes = true →
      ∃ id, item.attributes.lookup "id" = some (.str id) ∧ ownIps A id ≠ [] := by
  constructor
  · exact fun h => ⟨h.noPacket hR, h.associated hR⟩
  · intro hcond
    obtain ⟨hpacket, hassociated⟩ := hcond
    obtain ⟨u, hout, hown⟩ := hostsOutput_of hR hpacket
    -- What a host is put out as is read off its own associations, for any with the same.
    have hread : ∀ h ∈ hosts, ∀ id, h.attrs.lookup "id" = some (.str id) → ∃ unset,
        (∀ metadata, h.attrs.lookup "metadata" = some metadata → unset = !usesAccessIp metadata) ∧
        ∀ A', ownIps A' id = ownIps A id →
          u A' h = updated (((ownIps A id).getLast?).map Prod.snd) unset h := by
      intro h hh id hid
      obtain ⟨item, hitem, ht, id', hraw, hup, hu⟩ := hown h hh
      obtain rfl : id' = id := Json.str.inj (Option.some.inj (hup.id.symm.trans hid))
      refine ⟨unsetsAccessIp item.attributes, fun metadata hm => ?_, fun A' hsame => ?_⟩
      · rw [unsetsAccessIp, Option.some.inj (hup.metadata.symm.trans hm)]
      · rw [hu A']
        by_cases hA' : A' = []
        · have hnone : ownIps A id' = [] := by rw [← hsame, hA']; rfl
          have hkeeps : unsetsAccessIp item.attributes = false := by
            by_contra hunset
            obtain ⟨id2, hraw2, hne⟩ := hassociated item hitem ht (by simpa using hunset)
            obtain rfl : id2 = id' := Json.str.inj (Option.some.inj (hraw2.symm.trans hraw))
            exact hne hnone
          rw [if_pos hA', hnone, hkeeps]
          rfl
        · rw [if_neg hA', hsame]
    refine ⟨fun A' => ⟨_, hout A'⟩, ?_, ?_⟩
    · intro A' out out' hA hA' i h id hi hid hsame
      obtain rfl := Except.ok.inj ((hout A).symm.trans hA)
      obtain rfl := Except.ok.inj ((hout A').symm.trans hA')
      obtain ⟨unset, -, hu⟩ := hread h (List.mem_of_getElem? hi) id hid
      simp only [List.getElem?_map, hi, Option.map_some, hu A' hsame, hu A rfl]
    · intro out hA i h h' metadata hi hi' hm hunset
      obtain rfl := Except.ok.inj ((hout A).symm.trans hA)
      have hh := List.mem_of_getElem? hi
      obtain ⟨item, -, -, id, -, hup, -⟩ := hown h hh
      obtain ⟨unset, hflag, hu⟩ := hread h hh id hup.id
      rw [List.getElem?_map, hi, Option.map_some, hu A rfl, hflag metadata hm, hunset] at hi'
      rw [← Option.some.inj hi']
      exact accessIp_not_mem_updated _ h

end Leaks

/-- An instance that is to be reached by its private address. -/
def privateItem : Item :=
  ⟨"root", "openstack_compute_instance_v2.k8s_node",
    instanceAttrs "k8s-node-1" "a1" "10.0.0.1" [("use_access_ip", .str "0")]⟩

def privateHosts : List Host := (iterhosts scalarPython (.ofList [privateItem])).items

theorem privateHosts_read :
    (iterhosts scalarPython (.ofList [privateItem])).toList = .ok privateHosts :=
  (Generator.toList_eq_ok_iff _ _).mpr ⟨by decide +kernel, rfl⟩

theorem privateItem_noLeak_iff :
    NoLeak scalarPython [privateItem] [("a1", .str "203.0.113.1")] privateHosts ↔
      (∀ item ∈ [privateItem], itemType item ≠ some packetType) ∧
        ∀ item ∈ [privateItem], itemType item = some openstackType →
          unsetsAccessIp item.attributes = true → ∃ id,
            item.attributes.lookup "id" = some (.str id) ∧
              ownIps [("a1", .str "203.0.113.1")] id ≠ [] :=
  noLeak_iff privateHosts_read

/-- Without any floating IP the host keeps its access_ip. -/
theorem privateItem_keeps_accessIp : ¬ ∀ (R : List Item) (A : List (String × Json))
    (hosts : List Host), (iterhosts scalarPython (.ofList R)).toList = .ok hosts →
      NoLeak scalarPython R A hosts := by
  intro h
  have hleak := h [privateItem] [] privateHosts privateHosts_read
  have hfacts : privateHosts[0]?.any (fun d => (d.attrs.lookup "metadata").any
      (fun m => !usesAccessIp m) && decide ("access_ip" ∈ d.attrs.keys)) = true := by
    decide +kernel
  obtain ⟨d, hd, hd'⟩ := (Option.any_eq_true _ _).mp hfacts
  rw [Bool.and_eq_true, Option.any_eq_true, decide_eq_true_eq] at hd'
  obtain ⟨⟨metadata, hm, hunset⟩, haccess⟩ := hd'
  exact hleak.accessIp privateHosts (hostsOutput_nil privateHosts_read) 0 d d metadata hd hd hm
    (by simpa using hunset) haccess

end Kubespray.Terraform

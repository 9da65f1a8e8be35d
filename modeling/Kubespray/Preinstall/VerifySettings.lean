import Kubespray.Lib.Network

/-! The assertions of 0020-verify-settings.yml on the networks of pods and services, for any filter
`ipaddr` that does what is documented of it. -/
namespace Kubespray.Preinstall

/-- What a filter returns. -/
inductive Filtered where
  | none
  | bool (b : Bool)
  | text (s : String)

def Filtered.truthy : Filtered → Bool
  | .none => false
  | .bool b => b
  | .text s => s ≠ ""

/-- The filter `string`. -/
def Filtered.string : Filtered → String
  | .none => "None"
  | .bool b => if b then "True" else "False"
  | .text s => s

def assertThat (that : Bool) (msg : String) : Except String Unit :=
  if that then .ok () else .error msg

theorem assertThat_eq_ok_iff (that : Bool) (msg : String) :
    assertThat that msg = .ok () ↔ that = true := by
  cases that <;> simp [assertThat]

/-- An assertion with what comes after it. -/
theorem assertThat_bind_eq_ok_iff (that : Bool) (msg : String) (rest : Unit → Except String Unit) :
    (assertThat that msg >>= rest) = .ok () ↔ that = true ∧ rest () = .ok () := by
  cases that <;> simp [assertThat, bind, Except.bind]

section Assertions
variable (ipaddr : String → String → Filtered)

/-- Check that kube_service_addresses is a network range, and the same of kube_pods_subnet. -/
def checkNetworkRange (name value : String) : Except String Unit :=
  assertThat (ipaddr value "net").truthy
    (name ++ " = '" ++ value ++ "' is not a valid network range")

/-- Check that kube_pods_subnet does not collide with kube_service_addresses. -/
def checkCollision (kubePodsSubnet kubeServiceAddresses : String) : Except String Unit :=
  assertThat ((ipaddr kubePodsSubnet kubeServiceAddresses).string = "None")
    "kube_pods_subnet cannot be the same network segment as kube_service_addresses"

def verifyNetworks (kubePodsSubnet kubeServiceAddresses : String) : Except String Unit := do
  checkNetworkRange ipaddr "kube_service_addresses" kubeServiceAddresses
  checkNetworkRange ipaddr "kube_pods_subnet" kubePodsSubnet
  checkCollision ipaddr kubePodsSubnet kubeServiceAddresses

theorem verifyNetworks_eq_ok_iff (pods services : String) :
    verifyNetworks ipaddr pods services = .ok () ↔ (ipaddr services "net").truthy = true ∧
      (ipaddr pods "net").truthy = true ∧ (ipaddr pods services).string = "None" := by
  rw [verifyNetworks, checkNetworkRange, checkNetworkRange, assertThat_bind_eq_ok_iff,
    assertThat_bind_eq_ok_iff, checkCollision, assertThat_eq_ok_iff, decide_eq_true_iff]

/-- What is documented of the filter for networks of IPv4 addresses. -/
structure Documented : Prop where
  net : ∀ c : Cidr, (ipaddr c.text "net").truthy = true ↔ c.IsNetwork
  inside : ∀ c d : Cidr, c.IsNetwork → d.IsNetwork → c.network ⊆ d.network →
    ipaddr c.text d.text = .text c.text
  outside : ∀ c d : Cidr, c.IsNetwork → d.IsNetwork → ¬ c.network ⊆ d.network →
    ipaddr c.text d.text = .none

variable {ipaddr}

theorem Documented.string_eq_none_iff (h : Documented ipaddr) {c d : Cidr} (hc : c.IsNetwork)
    (hd : d.IsNetwork) : (ipaddr c.text d.text).string = "None" ↔ ¬ c.network ⊆ d.network := by
  by_cases hcd : c.network ⊆ d.network
  · have hne : c.text ≠ "None" := c.text_ne (by decide)
    rw [h.inside c d hc hd hcd]
    simpa [Filtered.string, hcd] using hne
  · rw [h.outside c d hc hd hcd]
    simp [Filtered.string, hcd]

/-- The networks that are accepted. -/
theorem verifyNetworks_text_eq_ok_iff (h : Documented ipaddr) (pods services : Cidr) :
    verifyNetworks ipaddr pods.text services.text = .ok () ↔
      (pods.IsNetwork ∧ services.IsNetwork) ∧ ¬ pods.network ⊆ services.network := by
  rw [verifyNetworks_eq_ok_iff, h.net, h.net]
  constructor
  · rintro ⟨hservices, hpods, hnone⟩
    exact ⟨⟨hpods, hservices⟩, (h.string_eq_none_iff hpods hservices).mp hnone⟩
  · rintro ⟨⟨hpods, hservices⟩, hno⟩
    exact ⟨hservices, hpods, (h.string_eq_none_iff hpods hservices).mpr hno⟩

variable (ipaddr)

/-- Networks of pods and services that are accepted have no address in common. -/
def AcceptsApart (pods services : Cidr) : Prop :=
  verifyNetworks ipaddr pods.text services.text = .ok () →
    Disjoint pods.network services.network

variable {ipaddr}

/-- The one case that is missed is a network of pods with the services inside it. -/
theorem acceptsApart_iff (h : Documented ipaddr) (pods services : Cidr) :
    AcceptsApart ipaddr pods services ↔ ¬ (pods.IsNetwork ∧ services.IsNetwork ∧
      pods.prefixLen < services.prefixLen ∧ services.address ∈ pods.network) := by
  rw [AcceptsApart, verifyNetworks_text_eq_ok_iff h, Cidr.disjoint_iff, ← Cidr.ssubset_iff,
    ssubset_iff_subset_not_subset]
  constructor
  · rintro hapart ⟨hpods, hservices, hsub, hno⟩
    exact (hapart ⟨⟨hpods, hservices⟩, hno⟩).2 hsub
  · rintro hnot ⟨⟨hpods, hservices⟩, hno⟩
    exact ⟨hno, fun hsub => hnot ⟨hpods, hservices, hsub, hno⟩⟩

end Assertions

/-- The filter on texts of this form. -/
def filterCidr (value query : String) : Filtered :=
  match Cidr.read value.toList with
  | none => .bool false
  | some c =>
    if query = "net" then (if c.IsNetwork then .text c.text else .none)
    else match Cidr.read query.toList with
      | none => .bool false
      | some d => if c.network ⊆ d.network then .text value else .none

theorem filterCidr_documented : Documented filterCidr := by
  have hquery : ∀ c d : Cidr, filterCidr c.text d.text =
      if c.network ⊆ d.network then .text c.text else .none := by
    intro c d
    have hne : d.text ≠ "net" := d.text_ne (by decide)
    simp only [filterCidr, Cidr.read_text, if_neg hne]
  refine ⟨fun c => ?_, fun c d _ _ h => by rw [hquery, if_pos h], fun c d _ _ h => by
    rw [hquery, if_neg h]⟩
  have hne : c.text ≠ "" := c.text_ne (by decide)
  simp only [filterCidr, Cidr.read_text, if_true]
  by_cases hc : c.IsNetwork
  · simp [hc, Filtered.truthy, hne]
  · simp [hc, Filtered.truthy]

def tenNet : Cidr := ⟨.ofOctets 10 0 0 0, 8⟩

def defaultServices : Cidr := ⟨.ofOctets 10 233 0 0, 18⟩

theorem tenNet_acceptsApart_iff : AcceptsApart filterCidr tenNet defaultServices ↔
    ¬ (tenNet.IsNetwork ∧ defaultServices.IsNetwork ∧
      tenNet.prefixLen < defaultServices.prefixLen ∧ defaultServices.address ∈ tenNet.network) :=
  acceptsApart_iff filterCidr_documented tenNet defaultServices

/-- 10.0.0.0/8 is accepted for the pods with 10.233.0.0/18 for the services. -/
theorem services_inside_pods_accepted : ¬ ∀ (ipaddr : String → String → Filtered),
    Documented ipaddr → ∀ pods services : Cidr, AcceptsApart ipaddr pods services := by
  intro h
  have hapart := h filterCidr filterCidr_documented tenNet defaultServices
    ((verifyNetworks_text_eq_ok_iff filterCidr_documented tenNet defaultServices).mpr (by decide))
  have hinside : defaultServices.network ⊆ tenNet.network := by decide
  exact Cidr.not_disjoint_of_subset hinside hapart.symm

end Kubespray.Preinstall

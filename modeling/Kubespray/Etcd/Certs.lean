import Kubespray.Lib.OrderedDict
import Mathlib.Tactic.Common

/-! Certificate files of the etcd role: their names, the directory that holds them, and
what check_certs.yml decides from the files found on the first etcd node. -/
namespace Kubespray.Etcd

/-- Contents of the .pem files. Keys are numbered; a certificate names the key it is
for and the key that signed it. -/
inductive Pem where
  | caCert (key : Nat)
  | key (key : Nat)
  | cert (cn : String) (key issuer : Nat)
  | other (content : String)
  deriving DecidableEq

def Pem.ownKey : Pem → Option Nat
  | .caCert k | .key k | .cert _ k _ => some k
  | .other _ => none

/-- The files below etcd_cert_dir, by name. -/
abbrev CertDir := OrderedDict String Pem

inductive CertKind where
  | member | admin | node
  deriving DecidableEq

def CertKind.text : CertKind → String
  | .member => "member"
  | .admin => "admin"
  | .node => "node"

def certFile (kind : CertKind) (host : String) : String := kind.text ++ "-" ++ host ++ ".pem"

def keyFile (kind : CertKind) (host : String) : String := kind.text ++ "-" ++ host ++ "-key.pem"

theorem keyFile_eq (kind : CertKind) (host : String) :
    keyFile kind host = certFile kind (host ++ "-key") := by
  have hs : "-key.pem" = "-key" ++ ".pem" := by decide
  simp only [keyFile, certFile, hs, String.append_assoc]

theorem certFile_inj {kind kind' : CertKind} {a b : String} :
    certFile kind a = certFile kind' b ↔ kind = kind' ∧ a = b := by
  constructor
  · intro h
    have hk : kind = kind' := by
      have h0 := congrArg (fun s => s.toList.head?) h
      cases kind <;> cases kind' <;> simp [certFile, CertKind.text] at h0 <;> rfl
    subst hk
    exact ⟨rfl, by simpa [certFile] using h⟩
  · intro hfacts
    obtain ⟨hk, ha⟩ := hfacts
    rw [hk, ha]

theorem certFile_ne_ca (kind : CertKind) (host : String) :
    certFile kind host ≠ "ca.pem" ∧ certFile kind host ≠ "ca-key.pem" := by
  constructor <;> intro h <;>
    · have h0 := congrArg (fun s => s.toList.head?) h
      cases kind <;> simp [certFile, CertKind.text] at h0

/-- The groups a run knows; the first host of groups['etcd'] is the first etcd node. -/
structure Layout where
  first : String
  otherEtcd : List String
  k8sCluster : List String
  calicoRr : List String

namespace Layout
variable (l : Layout)

def etcd : List String := l.first :: l.otherEtcd

/-- `(groups['k8s_cluster'] + groups['calico_rr']|default([]))|unique` -/
def k8sNodes : List String := addKeys [] (l.k8sCluster ++ l.calicoRr)

def certs : List (CertKind × String) :=
  l.etcd.flatMap (fun h => [(.member, h), (.admin, h)]) ++ l.k8sNodes.map (.node, ·)

def expectedFiles : List String :=
  "ca.pem" :: l.etcd.flatMap (fun h =>
    [certFile .admin h, keyFile .admin h, certFile .member h, keyFile .member h]) ++
  l.k8sNodes.flatMap fun h => [certFile .node h, keyFile .node h]

theorem mem_certs_member (h : String) : (.member, h) ∈ l.certs ↔ h ∈ l.etcd := by
  simp [certs]

theorem mem_certs_admin (h : String) : (.admin, h) ∈ l.certs ↔ h ∈ l.etcd := by
  simp [certs]

theorem mem_certs_node (h : String) : (.node, h) ∈ l.certs ↔ h ∈ l.k8sNodes := by
  simp [certs]

theorem mem_certs_of_ne_node {kind : CertKind} (hk : kind ≠ .node) (h : String) :
    (kind, h) ∈ l.certs ↔ h ∈ l.etcd := by
  cases kind with
  | member => exact l.mem_certs_member h
  | admin => exact l.mem_certs_admin h
  | node => exact absurd rfl hk

theorem mem_expectedFiles (f : String) : f ∈ l.expectedFiles ↔
    f = "ca.pem" ∨ ∃ c ∈ l.certs, f = certFile c.1 c.2 ∨ f = keyFile c.1 c.2 := by
  simp only [expectedFiles, certs, List.mem_append, List.mem_cons, List.mem_flatMap, List.mem_map,
    List.not_mem_nil, or_false]
  constructor
  · intro h
    rcases h with (h | ⟨x, hx, h⟩) | ⟨x, hx, h⟩
    · exact .inl h
    · rcases h with h | h | h | h
      · exact .inr ⟨(.admin, x), .inl ⟨x, hx, .inr rfl⟩, .inl h⟩
      · exact .inr ⟨(.admin, x), .inl ⟨x, hx, .inr rfl⟩, .inr h⟩
      · exact .inr ⟨(.member, x), .inl ⟨x, hx, .inl rfl⟩, .inl h⟩
      · exact .inr ⟨(.member, x), .inl ⟨x, hx, .inl rfl⟩, .inr h⟩
    · exact .inr ⟨(.node, x), .inr ⟨x, hx, rfl⟩, h⟩
  · intro h
    rcases h with h | ⟨c, hc, h⟩
    · exact .inl (.inl h)
    · rcases hc with ⟨x, hx, rfl | rfl⟩ | ⟨x, hx, rfl⟩
      · exact .inl (.inr ⟨x, hx, .inr (.inr h)⟩)
      · exact .inl (.inr ⟨x, hx, h.elim .inl fun h => .inr (.inl h)⟩)
      · exact .inr ⟨x, hx, h⟩

end Layout

def globPem (start : String) (f : String) : Bool :=
  start.toList.isPrefixOf f.toList && ".pem".toList.isSuffixOf (f.toList.drop start.length)

/-- Register certs that have already been generated on first etcd node: the names that
find returns for the patterns ca.pem, node*.pem, member*.pem and admin*.pem. -/
def etcdcertMaster (d : CertDir) : List String :=
  d.keys.filter fun f => f = "ca.pem" || globPem "node" f || globPem "member" f || globPem "admin" f

theorem globPem_certFile (kind : CertKind) (host : String) :
    globPem kind.text (certFile kind host) = true := by
  have hl : (certFile kind host).toList = kind.text.toList ++ (("-" ++ host).toList ++ ".pem".toList) := by
    simp [certFile]
  rw [globPem, hl, ← String.length_toList, List.drop_left, Bool.and_eq_true]
  exact ⟨by simp, by rw [List.isSuffixOf_iff_suffix]; exact List.suffix_append _ _⟩

theorem certFile_mem_etcdcertMaster (d : CertDir) (kind : CertKind) (host : String) :
    certFile kind host ∈ etcdcertMaster d ↔ certFile kind host ∈ d.keys := by
  have hg := globPem_certFile kind host
  rw [etcdcertMaster, List.mem_filter, and_iff_left_iff_imp]
  intro _
  cases kind <;> simp_all [CertKind.text]

theorem expected_mem_etcdcertMaster (l : Layout) (d : CertDir) (f : String)
    (hf : f ∈ l.expectedFiles) : f ∈ etcdcertMaster d ↔ f ∈ d.keys := by
  rcases (l.mem_expectedFiles f).mp hf with rfl | ⟨c, _, rfl | rfl⟩
  · simp [etcdcertMaster]
  · exact certFile_mem_etcdcertMaster d c.1 c.2
  · rw [keyFile_eq]
    exact certFile_mem_etcdcertMaster d c.1 _

/-- Set 'gen_certs' to true if expected certificates are not on the first etcd node. -/
def genCerts (force : Bool) (l : Layout) (d : CertDir) : Bool :=
  l.expectedFiles.any fun f => force || f ∉ etcdcertMaster d

def genMasterCerts (force : Bool) (d : CertDir) (host : String) : Bool :=
  force || !(certFile .member host ∈ etcdcertMaster d && keyFile .member host ∈ etcdcertMaster d &&
    certFile .admin host ∈ etcdcertMaster d && keyFile .admin host ∈ etcdcertMaster d)

def genNodeCerts (force : Bool) (d : CertDir) (host : String) : Bool :=
  force || !(certFile .node host ∈ etcdcertMaster d && keyFile .node host ∈ etcdcertMaster d)

/-- Whether the run generates the certificate anew. -/
def generates (force : Bool) (d : CertDir) : CertKind × String → Bool
  | (.node, h) => genNodeCerts force d h
  | (_, h) => genMasterCerts force d h

theorem generates_of_ne_node (force : Bool) (d : CertDir) {kind : CertKind} (hk : kind ≠ .node)
    (h : String) : generates force d (kind, h) = genMasterCerts force d h := by
  cases kind with
  | member => rfl
  | admin => rfl
  | node => exact absurd rfl hk

theorem genMasterCerts_eq_false_iff (force : Bool) (d : CertDir) (h : String) :
    genMasterCerts force d h = false ↔ force = false ∧ ∀ kind, kind ≠ CertKind.node →
      certFile kind h ∈ d.keys ∧ keyFile kind h ∈ d.keys := by
  simp only [genMasterCerts, keyFile_eq, certFile_mem_etcdcertMaster, Bool.or_eq_false_iff,
    Bool.not_eq_false', Bool.and_eq_true, decide_eq_true_iff]
  refine and_congr_right fun _ => ?_
  constructor
  · intro hfacts kind hk
    obtain ⟨⟨⟨hmc, hmk⟩, hac⟩, hak⟩ := hfacts
    cases kind with
    | member => exact ⟨hmc, hmk⟩
    | admin => exact ⟨hac, hak⟩
    | node => exact absurd rfl hk
  · intro hall
    have hm := hall .member nofun
    have ha := hall .admin nofun
    exact ⟨⟨⟨hm.1, hm.2⟩, ha.1⟩, ha.2⟩

theorem genNodeCerts_eq_false_iff (force : Bool) (d : CertDir) (h : String) :
    genNodeCerts force d h = false ↔
      force = false ∧ certFile .node h ∈ d.keys ∧ keyFile .node h ∈ d.keys := by
  simp only [genNodeCerts, keyFile_eq, certFile_mem_etcdcertMaster, Bool.or_eq_false_iff,
    Bool.not_eq_false', Bool.and_eq_true, decide_eq_true_iff]

theorem mem_keys_of_not_generates (force : Bool) (d : CertDir) (c : CertKind × String)
    (h : generates force d c = false) :
    certFile c.1 c.2 ∈ d.keys ∧ keyFile c.1 c.2 ∈ d.keys := by
  obtain ⟨kind, host⟩ := c
  by_cases hk : kind = .node
  · subst hk
    exact ((genNodeCerts_eq_false_iff force d host).mp h).2
  · rw [generates_of_ne_node force d hk] at h
    exact ((genMasterCerts_eq_false_iff force d host).mp h).2 kind hk

theorem genCerts_eq_false_iff (l : Layout) (d : CertDir) :
    genCerts false l d = false ↔ ∀ f ∈ l.expectedFiles, f ∈ d.keys := by
  simp only [genCerts, List.any_eq_false, Bool.false_or, decide_eq_true_iff, not_not]
  exact forall₂_congr fun f hf => expected_mem_etcdcertMaster l d f hf

/-- No host of a group bears another one's name followed by "-key", so that no
certificate and key share a file name. -/
def NamesApart (l : Layout) : Prop :=
  ∀ c ∈ l.certs, ∀ c' ∈ l.certs, c.1 = c'.1 → c'.2 ≠ c.2 ++ "-key"

theorem NamesApart.certFile_ne_keyFile {l : Layout} (h : NamesApart l) {c c' : CertKind × String}
    (hc : c ∈ l.certs) (hc' : c' ∈ l.certs) : certFile c.1 c.2 ≠ keyFile c'.1 c'.2 := by
  rw [keyFile_eq]
  intro he
  obtain ⟨hk, hn⟩ := certFile_inj.mp he
  exact h c' hc' c hc hk.symm hn

end Kubespray.Etcd

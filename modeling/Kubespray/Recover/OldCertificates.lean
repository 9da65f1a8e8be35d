import Kubespray.Etcd.MakeSsl
import Kubespray.Lib.Grep

/-! The role recover_control_plane/etcd deletes the old certificates of the broken hosts by a
pattern of the shell, in a directory that make-ssl-etcd.sh has filled. -/
namespace Kubespray.Recover
open Grep Etcd

/-- An inventory hostname; none of its characters is special to the shell. -/
structure HostName where
  text : String
  plain : (text.toList.all fun c => c.isAlphanum || c ∈ ['-', '_', '.']) = true
  deriving DecidableEq

/-- `*{{ item }}*`, in the directory of the certificates; a star stands for no leading dot. -/
def globMatches (host : HostName) (file : String) : Bool :=
  file.toList.head? ≠ some '.' && search (literal host.text.toList) file.toList

/-- Delete old certificates: `rm {{ etcd_cert_dir }}/*{{ item }}*` for each broken host. -/
def deleteOldCertificates (broken : List HostName) (d : CertDir) : CertDir :=
  broken.foldl (fun d host => d.filterKeys fun f => !globMatches host f) d

section Files

/-- Certificate and key of each kind. -/
def filesOf (host : String) : List String :=
  [CertKind.member, .admin, .node].flatMap fun kind => [certFile kind host, keyFile kind host]

def caFiles : List String := ["ca.pem", "ca-key.pem"]

/-- The files that make-ssl-etcd.sh makes for these hosts. -/
def issuedNames (masters hosts : List String) : List String :=
  caFiles ++ masters.flatMap (fun h => [certFile .member h, keyFile .member h, certFile .admin h,
    keyFile .admin h]) ++ hosts.flatMap fun h => [certFile .node h, keyFile .node h]

/-- What runs of make-ssl-etcd.sh leave in an empty directory, with the hosts that they were
given in all. -/
inductive Produced : List String → List String → CertDir → Prop
  | first {masters hosts : List String} {n : Nat} {d : CertDir} :
      makeSslEtcd masters hosts ∅ n = some d → Produced masters hosts d
  | again {masters hosts masters' hosts' : List String} {n : Nat} {d d' : CertDir} :
      Produced masters hosts d → makeSslEtcd masters' hosts' d n = some d' →
        Produced (masters ++ masters') (hosts ++ hosts') d'

theorem mem_names_issuedFiles (ca n : Nat) (masters hosts : List String) (f : String) :
    f ∈ caFiles ∨ f ∈ (issuedFiles ca n masters hosts).map Prod.fst ↔ f ∈ issuedNames masters hosts := by
  simp only [issuedFiles, List.map_append, List.mem_append, mem_names_masterFiles,
    mem_names_nodeFiles, issuedNames, List.mem_flatMap, List.mem_cons, List.not_mem_nil, or_false]
  grind

theorem mem_keys_workDir (reuse : Bool) (ca n : Nat) (masters hosts : List String) (f : String) :
    f ∈ (workDir reuse ca (issuedFiles ca n masters hosts)).keys ↔
      f ∈ issuedNames masters hosts ∧ (reuse = true → f ∉ caFiles) := by
  have hall : f ∈ ((caPair ca).setAll (issuedFiles ca n masters hosts)).keys ↔
      f ∈ issuedNames masters hosts := by
    rw [← mem_names_issuedFiles ca n, OrderedDict.keys_setAll, mem_addKeys]
    refine or_congr_left ?_
    simp [caPair, caFiles, addKey, or_comm]
  cases reuse with
  | false => simpa [workDir] using hall
  | true =>
    rw [workDir, if_pos rfl, OrderedDict.keys_filterKeys, List.mem_filter, hall]
    simp [caFiles]

/-- A run of the script adds the files of its hosts and the pair of the CA. -/
theorem mem_keys_makeSslEtcd {masters hosts : List String} {n : Nat} {d d' : CertDir}
    (h : makeSslEtcd masters hosts d n = some d') (f : String) :
    f ∈ d'.keys ↔ f ∈ d.keys ∨ f ∈ issuedNames masters hosts := by
  rw [makeSslEtcd] at h
  obtain ⟨⟨ca, m⟩, hca, h⟩ := Option.bind_eq_some_iff.mp h
  simp only [Option.ite_none_left_eq_some, Option.some.injEq] at h
  rw [← h.2, OrderedDict.keys_setAll, mem_addKeys]
  change f ∈ d.keys ∨ f ∈ (workDir _ ca (issuedFiles ca m masters hosts)).keys ↔ _
  rw [mem_keys_workDir]
  by_cases hkey : "ca-key.pem" ∈ d.keys
  · have hpair : f ∈ caFiles → f ∈ d.keys := by
      intro hf
      obtain ⟨hpem, hpemKey⟩ := rootCa_reuse d n ca m hkey hca
      simp only [caFiles, List.mem_cons, List.not_mem_nil, or_false] at hf
      cases hf with
      | inl hf => exact (OrderedDict.mem_keys_iff d f).mpr ⟨_, hf ▸ hpem⟩
      | inr hf => exact (OrderedDict.mem_keys_iff d f).mpr ⟨_, hf ▸ hpemKey⟩
    by_cases hf : f ∈ caFiles
    · simp [hpair hf]
    · simp [hf]
  · simp [hkey]

theorem Produced.mem_keys {masters hosts : List String} {d : CertDir} (h : Produced masters hosts d)
    (f : String) : f ∈ d.keys ↔ f ∈ issuedNames masters hosts := by
  induction h with
  | first h => rw [mem_keys_makeSslEtcd h]; simp
  | again _ h ih =>
    rw [mem_keys_makeSslEtcd h, ih]
    simp only [issuedNames, List.flatMap_append, List.mem_append]
    tauto

/-- No file of the script starts with a dot. -/
theorem head?_issuedNames {masters hosts : List String} {f : String}
    (h : f ∈ issuedNames masters hosts) : f.toList.head? ≠ some '.' := by
  have hcert : ∀ kind host, (certFile kind host).toList.head? ≠ some '.' := by
    intro kind host
    cases kind <;> simp [certFile, CertKind.text]
  simp only [issuedNames, caFiles, keyFile_eq, List.mem_append, List.mem_flatMap, List.mem_cons,
    List.not_mem_nil, or_false] at h
  obtain ((rfl | rfl) | ⟨x, -, rfl | rfl | rfl | rfl⟩) | ⟨x, -, rfl | rfl⟩ := h
  · decide
  · decide
  · exact hcert _ _
  · exact hcert _ _
  · exact hcert _ _
  · exact hcert _ _
  · exact hcert _ _
  · exact hcert _ _

end Files

section Deleting

theorem lookup_deleteOldCertificates (broken : List HostName) (d : CertDir) (f : String) :
    (deleteOldCertificates broken d).lookup f =
      if ∃ host ∈ broken, globMatches host f = true then none else d.lookup f := by
  induction broken generalizing d with
  | nil => simp [deleteOldCertificates]
  | cons host broken ih =>
    have hstep : deleteOldCertificates (host :: broken) d =
        deleteOldCertificates broken (d.filterKeys fun f => !globMatches host f) := rfl
    rw [hstep, ih, OrderedDict.lookup_filterKeys]
    by_cases hm : globMatches host f = true
    · simp [hm]
    · simp [hm]

/-- The files of all hosts that are not broken, and those of the CA. -/
def keptFiles (masters hosts : List String) (broken : List HostName) : List String :=
  issuedNames (masters.filter (· ∉ broken.map HostName.text))
    (hosts.filter (· ∉ broken.map HostName.text))

theorem keptFiles_subset (masters hosts : List String) (broken : List HostName) :
    keptFiles masters hosts broken ⊆ issuedNames masters hosts := by
  intro f hf
  simp only [keptFiles, issuedNames, List.mem_append, List.mem_flatMap, List.mem_filter] at hf ⊢
  grind

/-- The files of the broken hosts are gone, and no others. -/
structure DeletesBrokenOnly (masters hosts : List String) (broken : List HostName) (d : CertDir) :
    Prop where
  gone : ∀ host ∈ broken, ∀ f ∈ filesOf host.text, f ∉ (deleteOldCertificates broken d).keys
  kept : ∀ f ∈ keptFiles masters hosts broken, (deleteOldCertificates broken d).lookup f = d.lookup f

theorem globMatches_filesOf {host : HostName} {f : String} (h : f ∈ filesOf host.text) :
    globMatches host f = true := by
  have hissued : f ∈ issuedNames [host.text] [host.text] := by
    simp only [filesOf, issuedNames, List.mem_append, List.mem_flatMap, List.mem_cons] at h ⊢
    grind
  have hinfix : host.text.toList <:+: f.toList := by
    simp only [filesOf, certFile, keyFile, List.mem_flatMap, List.mem_cons, List.not_mem_nil,
      or_false] at h
    obtain ⟨kind, -, rfl | rfl⟩ := h
    · exact ⟨(kind.text ++ "-").toList, ".pem".toList, by simp⟩
    · exact ⟨(kind.text ++ "-").toList, "-key.pem".toList, by simp⟩
  rw [globMatches, Bool.and_eq_true, decide_eq_true_iff, search_literal_iff]
  exact ⟨head?_issuedNames hissued, hinfix⟩

theorem deletesBrokenOnly_iff {masters hosts : List String} {d : CertDir}
    (hd : Produced masters hosts d) (broken : List HostName) :
    DeletesBrokenOnly masters hosts broken d ↔
      ∀ host ∈ broken, ∀ f ∈ keptFiles masters hosts broken, ¬ host.text.toList <:+: f.toList := by
  constructor
  · intro h host hhost f hf hinfix
    have hissued := keptFiles_subset masters hosts broken hf
    obtain ⟨v, hv⟩ := (OrderedDict.mem_keys_iff d f).mp ((hd.mem_keys f).mpr hissued)
    have hmatch : globMatches host f = true := by
      rw [globMatches, Bool.and_eq_true, decide_eq_true_iff, search_literal_iff]
      exact ⟨head?_issuedNames hissued, hinfix⟩
    have hkept := h.kept f hf
    rw [lookup_deleteOldCertificates, if_pos ⟨host, hhost, hmatch⟩, hv] at hkept
    cases hkept
  · intro h
    refine ⟨fun host hhost f hf => ?_, fun f hf => ?_⟩
    · rw [← OrderedDict.lookup_eq_none_iff, lookup_deleteOldCertificates,
        if_pos ⟨host, hhost, globMatches_filesOf hf⟩]
    · rw [lookup_deleteOldCertificates, if_neg]
      intro hex
      obtain ⟨host, hhost, hmatch⟩ := hex
      rw [globMatches, Bool.and_eq_true, search_literal_iff] at hmatch
      exact h host hhost f hf hmatch.2

end Deleting

def node1 : HostName := ⟨"node1", by decide⟩

/-- The files of node1 and of the tenth host after it. -/
def tenHostDir : CertDir :=
  (makeSslEtcd ["node1", "node10"] ["node1", "node10"] ∅ 0).get (by decide)

theorem tenHostDir_produced : Produced ["node1", "node10"] ["node1", "node10"] tenHostDir :=
  .first (Option.some_get _).symm

theorem node1_deletesBrokenOnly_iff :
    DeletesBrokenOnly ["node1", "node10"] ["node1", "node10"] [node1] tenHostDir ↔
      ∀ host ∈ [node1], ∀ f ∈ keptFiles ["node1", "node10"] ["node1", "node10"] [node1],
        ¬ host.text.toList <:+: f.toList :=
  deletesBrokenOnly_iff tenHostDir_produced [node1]

theorem node10_deleted_with_node1 : ¬ ∀ (masters hosts : List String) (d : CertDir)
    (broken : List HostName), Produced masters hosts d → DeletesBrokenOnly masters hosts broken d := by
  intro h
  have hkept := (h _ _ _ [node1] tenHostDir_produced).kept "member-node10.pem" (by decide)
  rw [lookup_deleteOldCertificates, if_pos ⟨node1, by simp, by decide⟩] at hkept
  have hthere := (tenHostDir_produced.mem_keys "member-node10.pem").mpr (by decide)
  exact (OrderedDict.lookup_eq_none_iff _ _).mp hkept.symm hthere

end Kubespray.Recover

import Kubespray.Etcd.MakeSsl

/-! Distribution of the etcd certificates over the hosts of a play: the flags that
check_certs.yml sets from checksums, and the copies of gen_certs_script.yml. -/
namespace Kubespray.Etcd

namespace Layout
variable (l : Layout)

/-- `('calico_rr' in groups and host in groups['calico_rr']) or host in groups['k8s_cluster']` -/
def isNode (h : String) : Bool := h ∈ l.calicoRr || h ∈ l.k8sCluster

theorem mem_k8sNodes (h : String) : h ∈ l.k8sNodes ↔ l.isNode h = true := by
  simp [k8sNodes, isNode, or_comm]

def memberFilesOf (h : String) : List String :=
  ["ca.pem", certFile .member h, keyFile .member h, certFile .admin h, keyFile .admin h]

def nodeFilesOf (h : String) : List String := ["ca.pem", certFile .node h, keyFile .node h]

/-- Gather etcd member and admin certs from first etcd node. -/
def gatheredMember : List String :=
  "ca.pem" :: "ca-key.pem" :: l.etcd.flatMap fun h =>
    [certFile .admin h, keyFile .admin h, certFile .member h, keyFile .member h]

/-- Gather node certs from first etcd node. -/
def gatheredNode : List String := l.k8sNodes.flatMap fun h => [certFile .node h, keyFile .node h]

end Layout

abbrev CertDirs := String → CertDir

/-- Facts that an earlier play may have left set. -/
structure SyncFacts where
  etcdMemberRequiresSync : String → Bool
  kubernetesHostRequiresSync : String → Bool

section Check
variable {Digest : Type} [DecidableEq Digest] (checksum : Pem → Digest)

/-- The file is missing on the host, or its checksum is not the one found on the first
etcd node. -/
def outOfSync (master d : CertDir) (f : String) : Bool :=
  f ∉ d.keys || (d.lookup f).map checksum ≠
    if f ∈ etcdcertMaster master then (master.lookup f).map checksum else none

variable (force : Bool) (l : Layout) (dirs : CertDirs) (facts : SyncFacts)

/-- sync_certs at the end of check_certs.yml. -/
def syncCerts (h : String) : Bool :=
  (facts.etcdMemberRequiresSync h ||
    (h ∈ l.etcd && (Layout.memberFilesOf h).any (outOfSync checksum (dirs l.first) (dirs h)))) ||
  (facts.kubernetesHostRequiresSync h || (l.isNode h && h ∉ l.etcd &&
    (Layout.nodeFilesOf h).any (outOfSync checksum (dirs l.first) (dirs h)))) ||
  (h ∈ l.etcd && genMasterCerts force (dirs l.first) h) ||
  (h ∈ l.k8sNodes && genNodeCerts force (dirs l.first) h)

end Check

/-- Read files of the first etcd node; the task fails when one is missing. -/
def gather (master : CertDir) (files : List String) : Option (List (String × Pem)) :=
  files.mapM fun f => (master.lookup f).map (f, ·)

/-- Write etcd member and admin certs to other etcd nodes. -/
def writeMemberCerts (l : Layout) (sync : String → Bool) (master : CertDir) (h : String)
    (d : CertDir) : Option CertDir :=
  if h ∈ l.etcd ∧ sync h = true ∧ h ≠ l.first then
    (gather master l.gatheredMember).map d.setAll
  else some d

/-- Write node certs to other etcd nodes. -/
def writeNodeCerts (l : Layout) (master : CertDir) (h : String) (d : CertDir) : Option CertDir :=
  if h ∈ l.etcd ∧ h ≠ l.first then (gather master l.gatheredNode).map d.setAll else some d

/-- Copy certs on nodes; sync_certs is set on all of them just before. -/
def copyNodeCerts (l : Layout) (master : CertDir) (h : String) (d : CertDir) : Option CertDir :=
  if l.isNode h = true ∧ h ∉ l.etcd then (gather master (Layout.nodeFilesOf h)).map d.setAll
  else some d

/-- One task on the hosts of the play; it reads from the first etcd node. -/
def onHosts (l : Layout) (task : CertDir → String → CertDir → Option CertDir)
    (play : List String) (dirs : CertDirs) : Option CertDirs :=
  play.foldlM (fun dirs h =>
    (task (dirs l.first) h (dirs h)).map fun d => Function.update dirs h d) dirs

/-- The hosts of a play that starts with the first etcd node. -/
structure Play (l : Layout) where
  hosts : List String
  nodup : hosts.Nodup
  head_first : hosts.head? = some l.first

section Run
variable {Digest : Type} [DecidableEq Digest] (checksum : Pem → Digest)
variable (force : Bool) (l : Layout) (facts : SyncFacts)

/-- check_certs.yml and gen_certs_script.yml on the hosts of the play. -/
def genCertsScript (play : Play l) (dirs : CertDirs) (n : Nat) : Option CertDirs := do
  let sync := syncCerts checksum force l dirs facts
  let master ← runCertScript force l (dirs l.first) n
  let dirs ← onHosts l (writeMemberCerts l sync) play.hosts (Function.update dirs l.first master)
  let dirs ← onHosts l (writeNodeCerts l) play.hosts dirs
  onHosts l (copyNodeCerts l) play.hosts dirs

end Run

/-- The directory with the files of the first etcd node copied over. -/
def copyFrom (master : CertDir) (files : List String) (d : CertDir) : CertDir :=
  d.setAll (files.filterMap fun f => (master.lookup f).map (f, ·))

theorem gather_eq (master : CertDir) (files : List String) (h : ∀ f ∈ files, f ∈ master.keys) :
    gather master files = some (files.filterMap fun f => (master.lookup f).map (f, ·)) := by
  induction files with
  | nil => rfl
  | cons f fs ih =>
    obtain ⟨c, hc⟩ := (master.mem_keys_iff f).mp (h f (by simp))
    have hfs := ih fun x hx => h x (List.mem_cons_of_mem f hx)
    rw [gather] at hfs ⊢
    simp [hc, hfs]

theorem lookup_copyFrom (master d : CertDir) (files : List String) (f : String)
    (h : ∀ f ∈ files, f ∈ master.keys) :
    (copyFrom master files d).lookup f = if f ∈ files then master.lookup f else d.lookup f := by
  have hmem : ∀ e, e ∈ files.filterMap (fun f => (master.lookup f).map (f, ·)) ↔
      e.1 ∈ files ∧ master.lookup e.1 = some e.2 := by
    intro e
    simp only [List.mem_filterMap, Option.map_eq_some_iff]
    constructor
    · intro hfacts
      obtain ⟨x, hx, c, hc, he⟩ := hfacts
      exact he ▸ ⟨hx, hc⟩
    · intro hfacts
      obtain ⟨hx, hc⟩ := hfacts
      exact ⟨e.1, hx, e.2, hc, rfl⟩
  by_cases hf : f ∈ files
  · obtain ⟨c, hc⟩ := (master.mem_keys_iff f).mp (h f hf)
    obtain ⟨v, hv, he⟩ := OrderedDict.lookup_setAll_of_mem d _ f
      (List.mem_map.mpr ⟨(f, c), (hmem _).mpr ⟨hf, hc⟩, rfl⟩)
    rw [if_pos hf, copyFrom, hv, ((hmem _).mp he).2]
  · have hn : f ∉ (files.filterMap fun f => (master.lookup f).map (f, ·)).map Prod.fst := by
      intro hm
      obtain ⟨e, he, hef⟩ := List.mem_map.mp hm
      exact hf (hef ▸ ((hmem e).mp he).1)
    rw [if_neg hf, copyFrom, OrderedDict.lookup_setAll_of_not_mem d _ f hn]

/-- A task that works on each host of the play and leaves the first etcd node alone
takes every host from its directory before to the task's result. -/
theorem onHosts_spec (l : Layout) (task : CertDir → String → CertDir → Option CertDir)
    (play : List String) (hnd : play.Nodup) (dirs : CertDirs) (out : CertDirs)
    (hfirst : out l.first = dirs l.first)
    (htask : ∀ h ∈ play, task (dirs l.first) h (dirs h) = some (out h)) :
    ∃ dirs', onHosts l task play dirs = some dirs' ∧
      ∀ h, dirs' h = if h ∈ play then out h else dirs h := by
  induction play generalizing dirs with
  | nil => exact ⟨dirs, rfl, by simp⟩
  | cons x xs ih =>
    obtain ⟨hx, hxs⟩ := List.nodup_cons.mp hnd
    have hup : Function.update dirs x (out x) l.first = dirs l.first := by
      by_cases hxf : l.first = x
      · rw [← hxf, Function.update_self, hfirst]
      · rw [Function.update_of_ne hxf]
    obtain ⟨dirs', hd, hall⟩ := ih hxs (Function.update dirs x (out x)) (hfirst.trans hup.symm)
      (by
        intro h hh
        have hne : h ≠ x := fun he => hx (he ▸ hh)
        rw [hup, Function.update_of_ne hne]
        exact htask h (List.mem_cons_of_mem x hh))
    refine ⟨dirs', ?_, ?_⟩
    · simpa [onHosts, htask x (by simp)] using hd
    · intro h
      rw [hall h]
      by_cases hh : h = x
      · subst hh
        simp [hx]
      · simp [hh]

/-- What the three copies make of a host's directory. -/
def syncedDir (l : Layout) (sync : String → Bool) (master : CertDir) (h : String) (d : CertDir) :
    CertDir :=
  let d := if h ∈ l.etcd ∧ sync h = true ∧ h ≠ l.first then copyFrom master l.gatheredMember d
    else d
  let d := if h ∈ l.etcd ∧ h ≠ l.first then copyFrom master l.gatheredNode d else d
  if l.isNode h = true ∧ h ∉ l.etcd then copyFrom master (Layout.nodeFilesOf h) d else d

section Gathered
variable (l : Layout) (master : CertDir) (hca : "ca-key.pem" ∈ master.keys)
  (hall : ∀ f ∈ l.expectedFiles, f ∈ master.keys)
include hca hall

theorem gatheredMember_mem (f : String) (hf : f ∈ l.gatheredMember) : f ∈ master.keys := by
  rw [Layout.gatheredMember, List.mem_cons, List.mem_cons] at hf
  rcases hf with rfl | rfl | hf
  · exact hall _ (by simp [Layout.expectedFiles])
  · exact hca
  · exact hall f (by simp only [Layout.expectedFiles, List.cons_append, List.mem_cons,
      List.mem_append, hf, true_or, or_true])

omit hca in
theorem gatheredNode_mem (f : String) (hf : f ∈ l.gatheredNode) : f ∈ master.keys :=
  hall f (List.mem_append_right _ hf)

omit hca in
theorem nodeFilesOf_mem (h : String) (hn : l.isNode h = true) (f : String)
    (hf : f ∈ Layout.nodeFilesOf h) : f ∈ master.keys := by
  rw [Layout.nodeFilesOf, List.mem_cons] at hf
  rcases hf with rfl | hf
  · exact hall _ (by simp [Layout.expectedFiles])
  · exact gatheredNode_mem l master hall f
      (List.mem_flatMap.mpr ⟨h, (l.mem_k8sNodes h).mpr hn, hf⟩)

end Gathered

/-- The file is there and byte-equal to that of the first etcd node. -/
def SameFile (master d : CertDir) (f : String) : Prop :=
  ∃ p, d.lookup f = some p ∧ master.lookup f = some p

theorem SameFile.refl {master : CertDir} {f : String} (h : f ∈ master.keys) :
    SameFile master master f := by
  obtain ⟨p, hp⟩ := (master.mem_keys_iff f).mp h
  exact ⟨p, hp, hp⟩

theorem sameFile_copyFrom (master d : CertDir) (files : List String)
    (hfiles : ∀ f ∈ files, f ∈ master.keys) (f : String) (hf : f ∈ files) :
    SameFile master (copyFrom master files d) f := by
  obtain ⟨p, hp⟩ := (master.mem_keys_iff f).mp (hfiles f hf)
  exact ⟨p, by rw [lookup_copyFrom master d files f hfiles, if_pos hf, hp], hp⟩

theorem SameFile.copyFrom {master d : CertDir} {f : String} (h : SameFile master d f)
    (files : List String) (hfiles : ∀ f ∈ files, f ∈ master.keys) :
    SameFile master (copyFrom master files d) f := by
  obtain ⟨p, hp, hm⟩ := h
  refine ⟨p, ?_, hm⟩
  rw [lookup_copyFrom master d files f hfiles]
  split
  · exact hm
  · exact hp

/-- What each host of the play is to hold after the run. -/
def Distributed (l : Layout) (play : Play l) (dirs : CertDirs) : Prop :=
  ∀ h ∈ play.hosts,
    (h ∈ l.etcd → ∀ f ∈ Layout.memberFilesOf h ++ l.gatheredNode,
      SameFile (dirs l.first) (dirs h) f) ∧
    (l.isNode h = true → ∀ f ∈ Layout.nodeFilesOf h, SameFile (dirs l.first) (dirs h) f)

/-- Nothing tells check_certs.yml to copy to the etcd host: no flag is left from an earlier
play, its own files are those of the first etcd node, and none of them is to be generated. -/
structure UpToDate (force : Bool) (l : Layout) (dirs : CertDirs) (facts : SyncFacts)
    (h : String) : Prop where
  notForced : force = false
  noFlag : facts.etcdMemberRequiresSync h = false ∧ facts.kubernetesHostRequiresSync h = false
  same : ∀ f ∈ Layout.memberFilesOf h, SameFile (dirs l.first) (dirs h) f
  nodeCert : h ∈ l.k8sNodes →
    certFile .node h ∈ (dirs l.first).keys ∧ keyFile .node h ∈ (dirs l.first).keys

def NamesClash (a b : String) : Prop := a = b ++ "-key" ∨ b = a ++ "-key"

theorem mem_memberFilesOf (h f : String) : f ∈ Layout.memberFilesOf h ↔ f = "ca.pem" ∨
    ∃ kind, kind ≠ CertKind.node ∧ (f = certFile kind h ∨ f = keyFile kind h) := by
  simp only [Layout.memberFilesOf, List.mem_cons, List.not_mem_nil, or_false]
  constructor
  · intro hf
    rcases hf with hf | hf | hf | hf | hf
    · exact .inl hf
    · exact .inr ⟨.member, nofun, .inl hf⟩
    · exact .inr ⟨.member, nofun, .inr hf⟩
    · exact .inr ⟨.admin, nofun, .inl hf⟩
    · exact .inr ⟨.admin, nofun, .inr hf⟩
  · intro hf
    rcases hf with hf | ⟨kind, hk, hf⟩
    · exact .inl hf
    · cases kind with
      | member => exact .inr (hf.elim .inl fun hf => .inr (.inl hf))
      | admin => exact .inr (.inr (.inr hf))
      | node => exact absurd rfl hk

theorem memberFilesOf_subset (l : Layout) (h : String) (hh : h ∈ l.etcd) (f : String)
    (hf : f ∈ Layout.memberFilesOf h) : f ∈ l.expectedFiles := by
  refine (l.mem_expectedFiles f).mpr ?_
  rcases (mem_memberFilesOf h f).mp hf with hf | ⟨kind, hk, hf⟩
  · exact .inl hf
  · exact .inr ⟨(kind, h), (l.mem_certs_of_ne_node hk h).mpr hh, hf⟩

theorem outOfSync_eq_false_iff {Digest : Type} [DecidableEq Digest] (checksum : Pem → Digest)
    (hinj : Function.Injective checksum) (l : Layout) (master d : CertDir) (f : String)
    (hf : f ∈ l.expectedFiles) : outOfSync checksum master d f = false ↔ SameFile master d f := by
  have hmaster : (if f ∈ etcdcertMaster master then (master.lookup f).map checksum else none) =
      (master.lookup f).map checksum := by
    simp only [expected_mem_etcdcertMaster l master f hf]
    split
    · rfl
    · rename_i hno
      rw [(master.lookup_eq_none_iff f).mpr hno, Option.map_none]
  rw [outOfSync, hmaster]
  simp only [Bool.or_eq_false_iff, decide_eq_false_iff_not, not_not,
    (Option.map_injective hinj).eq_iff, ne_eq, d.mem_keys_iff]
  constructor
  · intro hfacts
    obtain ⟨⟨p, hp⟩, he⟩ := hfacts
    exact ⟨p, hp, he ▸ hp⟩
  · intro hfacts
    obtain ⟨p, hp, hm⟩ := hfacts
    exact ⟨⟨p, hp⟩, hp.trans hm.symm⟩

theorem syncCerts_eq_false_iff {Digest : Type} [DecidableEq Digest] (checksum : Pem → Digest)
    (hinj : Function.Injective checksum) (force : Bool) (l : Layout) (dirs : CertDirs)
    (facts : SyncFacts) (h : String) (hh : h ∈ l.etcd) :
    syncCerts checksum force l dirs facts h = false ↔ UpToDate force l dirs facts h := by
  have hsame : (Layout.memberFilesOf h).any (outOfSync checksum (dirs l.first) (dirs h)) = false ↔
      ∀ f ∈ Layout.memberFilesOf h, SameFile (dirs l.first) (dirs h) f := by
    rw [List.any_eq_false]
    refine forall₂_congr fun f hf => ?_
    rw [Bool.not_eq_true]
    exact outOfSync_eq_false_iff checksum hinj l _ _ f (memberFilesOf_subset l h hh f hf)
  have hmember : (∀ f ∈ Layout.memberFilesOf h, SameFile (dirs l.first) (dirs h) f) →
      (genMasterCerts force (dirs l.first) h = false ↔ force = false) := by
    intro hs
    rw [genMasterCerts_eq_false_iff, and_iff_left_iff_imp]
    intro _ kind hk
    obtain ⟨p, -, hp⟩ := hs (certFile kind h) ((mem_memberFilesOf h _).mpr (.inr ⟨kind, hk, .inl rfl⟩))
    obtain ⟨q, -, hq⟩ := hs (keyFile kind h) ((mem_memberFilesOf h _).mpr (.inr ⟨kind, hk, .inr rfl⟩))
    exact ⟨(OrderedDict.mem_keys_iff _ _).mpr ⟨p, hp⟩, (OrderedDict.mem_keys_iff _ _).mpr ⟨q, hq⟩⟩
  simp only [syncCerts, hh, decide_true, Bool.true_and, Bool.or_eq_false_iff, hsame,
    not_true_eq_false, decide_false, Bool.and_false, Bool.false_and, and_true]
  constructor
  · intro hfacts
    obtain ⟨⟨⟨⟨hfm, hs⟩, hfk⟩, hgm⟩, hgn⟩ := hfacts
    have hforce := (hmember hs).mp hgm
    refine ⟨hforce, ⟨hfm, hfk⟩, hs, fun hk => ?_⟩
    exact ((genNodeCerts_eq_false_iff force _ h).mp (by simpa [hk] using hgn)).2
  · intro hfacts
    obtain ⟨hforce, ⟨hfm, hfk⟩, hs, hn⟩ := hfacts
    refine ⟨⟨⟨⟨hfm, hs⟩, hfk⟩, (hmember hs).mpr hforce⟩, ?_⟩
    by_cases hk : h ∈ l.k8sNodes
    · simp [(genNodeCerts_eq_false_iff force _ h).mpr ⟨hforce, hn hk⟩]
    · simp [hk]

section Spec
variable {Digest : Type} [DecidableEq Digest] (checksum : Pem → Digest)
variable (force : Bool) (l : Layout) (facts : SyncFacts)

theorem memberFile_issued_iff (d : CertDir) (ca n : Nat) (h : String)
    (hgen : genMasterCerts force d h = false) :
    (∃ f ∈ Layout.memberFilesOf h, f ∈ (toIssue force l d ca n).map Prod.fst) ↔
      ∃ h' ∈ l.etcd, NamesClash h h' ∧ genMasterCerts force d h' = true := by
  constructor
  · intro hfacts
    obtain ⟨f, hf, hm⟩ := hfacts
    obtain ⟨⟨kind, x⟩, hc, hg, hfc⟩ := (mem_names_toIssue_iff force l d ca n f).mp hm
    rcases (mem_memberFilesOf h f).mp hf with rfl | ⟨kind', hk, hfh⟩
    · exact absurd hm (ca_not_mem_names force l d ca n).1
    · have hgx : kind = kind' → genMasterCerts force d x = true := by
        intro he
        rw [← generates_of_ne_node force d (he ▸ hk) x]
        exact hg
      have hxe : kind = kind' → x ∈ l.etcd := fun he => (l.mem_certs_of_ne_node (he ▸ hk) x).mp hc
      simp only [keyFile_eq] at hfh hfc
      rcases hfh with rfl | rfl <;> rcases hfc with hfc | hfc <;>
        obtain ⟨hkk, hx⟩ := certFile_inj.mp hfc
      · rw [hx, hgx hkk.symm] at hgen
        cases hgen
      · exact ⟨x, hxe hkk.symm, .inl hx, hgx hkk.symm⟩
      · exact ⟨x, hxe hkk.symm, .inr hx.symm, hgx hkk.symm⟩
      · have hxh : h = x := by simpa using hx
        rw [hxh, hgx hkk.symm] at hgen
        cases hgen
  · intro hfacts
    obtain ⟨h', hh', hclash, hg⟩ := hfacts
    obtain ⟨hcn, hkn⟩ := mem_names_toIssue force l d ca n (.member, h')
      ((l.mem_certs_member h').mpr hh') hg
    cases hclash with
    | inl he =>
      refine ⟨certFile .member h, by simp [Layout.memberFilesOf], ?_⟩
      rw [he, ← keyFile_eq]
      exact hkn
    | inr he =>
      refine ⟨keyFile .member h, by simp [Layout.memberFilesOf], ?_⟩
      rw [keyFile_eq, ← he]
      exact hcn

/-- With all files on the first etcd node, the run completes and each host of the play
ends with the copies its flags ask for. -/
theorem genCertsScript_spec (play : Play l) (dirs : CertDirs) (n : Nat) (master : CertDir)
    (hm : runCertScript force l (dirs l.first) n = some master)
    (hca : "ca-key.pem" ∈ master.keys) (hall : ∀ f ∈ l.expectedFiles, f ∈ master.keys) :
    ∃ final, genCertsScript checksum force l facts play dirs n = some final ∧
      final l.first = master ∧ ∀ h ∈ play.hosts, h ≠ l.first →
        final h = syncedDir l (syncCerts checksum force l dirs facts) master h (dirs h) := by
  set sync := syncCerts checksum force l dirs facts with hsync
  set dirs0 := Function.update dirs l.first master with hdirs0
  have hfirst0 : dirs0 l.first = master := Function.update_self ..
  have hmem : l.first ∈ l.etcd := List.mem_cons_self
  obtain ⟨dirs1, hd1, hall1⟩ := onHosts_spec l (writeMemberCerts l sync) play.hosts play.nodup dirs0
    (fun h => if h ∈ l.etcd ∧ sync h = true ∧ h ≠ l.first then
      copyFrom master l.gatheredMember (dirs0 h) else dirs0 h) (by simp) (by
      intro h _
      rw [hfirst0, writeMemberCerts, gather_eq _ _ (gatheredMember_mem l master hca hall)]
      split <;> rfl)
  have hfirst1 : dirs1 l.first = master := by simp [hall1, hfirst0]
  obtain ⟨dirs2, hd2, hall2⟩ := onHosts_spec l (writeNodeCerts l) play.hosts play.nodup dirs1
    (fun h => if h ∈ l.etcd ∧ h ≠ l.first then copyFrom master l.gatheredNode (dirs1 h)
      else dirs1 h) (by simp) (by
      intro h _
      rw [hfirst1, writeNodeCerts, gather_eq _ _ (gatheredNode_mem l master hall)]
      split <;> rfl)
  have hfirst2 : dirs2 l.first = master := by simp [hall2, hfirst1]
  obtain ⟨dirs3, hd3, hall3⟩ := onHosts_spec l (copyNodeCerts l) play.hosts play.nodup dirs2
    (fun h => if l.isNode h = true ∧ h ∉ l.etcd then
      copyFrom master (Layout.nodeFilesOf h) (dirs2 h) else dirs2 h) (by simp [hmem]) (by
      intro h _
      rw [hfirst2, copyNodeCerts]
      split
      · rename_i hn
        rw [gather_eq _ _ (nodeFilesOf_mem l master hall h hn.1)]
        rfl
      · rfl)
  refine ⟨dirs3, ?_, ?_, ?_⟩
  · simp [genCertsScript, hm, ← hsync, ← hdirs0, hd1, hd2, hd3]
  · simp [hall3, hfirst2, hmem]
  · intro h hh hne
    have hh0 : dirs0 h = dirs h := Function.update_of_ne hne ..
    simp only [hall3, hall2, hall1, hh, if_true, hh0]
    rfl

/-- The files of an etcd host that is not synced stay those of the first etcd node exactly
when no generated file of a host with a clashing name replaces one of them. -/
theorem upToDate_same_iff (dirs : CertDirs) (ca n : Nat) (h : String)
    (hup : UpToDate force l dirs facts h) (hgen : genMasterCerts force (dirs l.first) h = false)
    (hfresh : ∀ f p k, (dirs l.first).lookup f = some p → p.ownKey = some k → k < n)
    (master : CertDir)
    (hinstalls : Installs (toIssue force l (dirs l.first) ca n) (dirs l.first) master) :
    (∀ f ∈ Layout.memberFilesOf h, SameFile master (dirs h) f) ↔
      ∀ h' ∈ l.etcd, NamesClash h h' → genMasterCerts force (dirs l.first) h' = false := by
  have hiff := memberFile_issued_iff force l (dirs l.first) ca n h hgen
  have hsame : ∀ f ∈ Layout.memberFilesOf h, (SameFile master (dirs h) f ↔
      f ∉ (toIssue force l (dirs l.first) ca n).map Prod.fst) := by
    intro f hf
    obtain ⟨p, hp, hpm⟩ := hup.same f hf
    constructor
    · intro hfacts
      obtain ⟨q, hq, hqm⟩ := hfacts
      intro hm
      -- a new file belongs to a new key, the host's file to an old one
      obtain ⟨c, hc, hmem⟩ := hinstalls.placed f hm
      obtain ⟨k, hk, hown⟩ := ownKey_of_mem_issuedFiles _ _ _ _ _ hmem
      have hcq : c = q := by simpa [hc] using hqm
      have hpq : p = q := by simpa [hp] using hq
      have hlt := hfresh f p k hpm (by rw [hpq, ← hcq]; exact hown)
      omega
    · intro hm
      exact ⟨p, hp, (hinstalls.kept f hm).trans hpm⟩
  constructor
  · intro hall h' hh' hclash
    by_contra hg
    obtain ⟨f, hf, hm⟩ := hiff.mpr ⟨h', hh', hclash, by simpa using hg⟩
    exact (hsame f hf).mp (hall f hf) hm
  · intro hno f hf
    refine (hsame f hf).mpr fun hm => ?_
    obtain ⟨h', hh', hclash, hg⟩ := hiff.mp ⟨f, hf, hm⟩
    rw [hno h' hh' hclash] at hg
    cases hg

theorem syncedDir_spec (sync : String → Bool) (master d : CertDir) (h : String)
    (hne : h ≠ l.first) (hca : "ca-key.pem" ∈ master.keys)
    (hall : ∀ f ∈ l.expectedFiles, f ∈ master.keys) :
    (h ∈ l.etcd → ∀ f ∈ l.gatheredNode, SameFile master (syncedDir l sync master h d) f) ∧
    (h ∈ l.etcd → sync h = true → ∀ f ∈ Layout.memberFilesOf h,
      SameFile master (syncedDir l sync master h d) f) ∧
    (h ∈ l.etcd → sync h = false → ∀ f ∈ Layout.memberFilesOf h,
      (SameFile master (syncedDir l sync master h d) f ↔ SameFile master d f)) ∧
    (h ∉ l.etcd → l.isNode h = true → ∀ f ∈ Layout.nodeFilesOf h,
      SameFile master (syncedDir l sync master h d) f) := by
  have hnode := gatheredNode_mem l master hall
  have hmember := gatheredMember_mem l master hca hall
  refine ⟨fun he f hf => ?_, fun he hs f hf => ?_, fun he hs f hf => ?_, fun he hn f hf => ?_⟩
  · simp only [syncedDir, he, hne, not_true_eq_false, and_false, if_false, ne_eq,
      not_false_eq_true, and_self, if_true]
    exact sameFile_copyFrom _ _ _ hnode f hf
  · simp only [syncedDir, he, hs, hne, not_true_eq_false, and_false, if_false, ne_eq,
      not_false_eq_true, and_self, if_true]
    refine (sameFile_copyFrom _ _ _ hmember f ?_).copyFrom _ hnode
    rcases (mem_memberFilesOf h f).mp hf with rfl | ⟨kind, hk, hfk⟩
    · simp [Layout.gatheredMember]
    · simp only [Layout.gatheredMember, List.mem_cons, List.mem_flatMap]
      refine .inr (.inr ⟨h, he, ?_⟩)
      cases kind with
      | member => rcases hfk with rfl | rfl <;> simp
      | admin => rcases hfk with rfl | rfl <;> simp
      | node => exact absurd rfl hk
  · simp only [syncedDir, he, hs, hne, not_true_eq_false, and_false, if_false, ne_eq,
      not_false_eq_true, and_self, if_true, Bool.false_eq_true, false_and]
    have hfn : f ∉ l.gatheredNode := by
      intro hm
      obtain ⟨x, -, hx⟩ := List.mem_flatMap.mp hm
      simp only [List.mem_cons, List.not_mem_nil, or_false] at hx
      rcases (mem_memberFilesOf h f).mp hf with rfl | ⟨kind, hk, hfk⟩
      · cases hx with
        | inl hx => exact (certFile_ne_ca .node x).1 hx.symm
        | inr hx => exact (certFile_ne_ca .node (x ++ "-key")).1 (keyFile_eq .node x ▸ hx.symm)
      · simp only [keyFile_eq] at hfk hx
        rcases hfk with rfl | rfl <;> rcases hx with hx | hx <;>
          exact hk (certFile_inj.mp hx).1
    simp only [SameFile, lookup_copyFrom master d _ f hnode, if_neg hfn]
  · simp only [syncedDir, he, hn, false_and, if_false, not_false_eq_true, and_self, if_true]
    exact sameFile_copyFrom _ _ _ (nodeFilesOf_mem l master hall h hn) f hf

/-- On an intact CA the run completes, and all hosts have their certificates exactly when
no etcd host that is found up to date has a file replaced because of a clashing name. -/
theorem distributed_iff (hinj : Function.Injective checksum) (play : Play l) (dirs : CertDirs)
    (n : Nat) (hca : CaIntact (dirs l.first))
    (hfresh : ∀ f p k, (dirs l.first).lookup f = some p → p.ownKey = some k → k < n) :
    ∃ final, genCertsScript checksum force l facts play dirs n = some final ∧
      (Distributed l play final ↔ ∀ h ∈ play.hosts, h ∈ l.etcd → h ≠ l.first →
        UpToDate force l dirs facts h → ∀ h' ∈ l.etcd, NamesClash h h' →
          genMasterCerts force (dirs l.first) h' = false) := by
  obtain ⟨k, hcert, hkey⟩ := hca
  obtain ⟨master, hrun, hinstalls⟩ :=
    runCertScript_installs force l (dirs l.first) n k hcert hkey
  have hcam : "ca-key.pem" ∈ master.keys :=
    hinstalls.mem_keys ((OrderedDict.mem_keys_iff _ _).mpr ⟨_, hkey⟩)
  have hall := hinstalls.expected_mem ((OrderedDict.mem_keys_iff _ _).mpr ⟨_, hcert⟩)
  obtain ⟨final, hfinal, hfirst, hhosts⟩ :=
    genCertsScript_spec checksum force l facts play dirs n master hrun hcam hall
  refine ⟨final, hfinal, ?_⟩
  have hsync (h) (hh : h ∈ l.etcd) := syncCerts_eq_false_iff checksum hinj force l dirs facts h hh
  have hspec (h) (hm : h ∈ play.hosts) (hne : h ≠ l.first) :=
    hhosts h hm hne ▸ syncedDir_spec l (syncCerts checksum force l dirs facts) master (dirs h) h
      hne hcam hall
  have hunsynced (h) (hh : h ∈ l.etcd) (hup : UpToDate force l dirs facts h) :=
    upToDate_same_iff force l facts dirs k n h hup
      (by
        have hs := (hsync h hh).mpr hup
        simp only [syncCerts, hh, decide_true, Bool.true_and, Bool.or_eq_false_iff] at hs
        exact hs.1.2) hfresh master hinstalls
  rw [Distributed, hfirst]
  constructor
  · intro hdist h hm he hne hup
    refine (hunsynced h he hup).mp fun f hf => ?_
    exact ((hspec h hm hne).2.2.1 he ((hsync h he).mpr hup) f hf).mp
      ((hdist h hm).1 he f (List.mem_append_left _ hf))
  · intro hno h hm
    by_cases hf1 : h = l.first
    · rw [hf1, hfirst]
      refine ⟨fun he f hf => SameFile.refl (hall f ?_), fun hn f hf => ?_⟩
      · exact (List.mem_append.mp hf).elim (memberFilesOf_subset l _ he f)
          fun hf => List.mem_append_right _ hf
      · exact SameFile.refl (nodeFilesOf_mem l master hall _ hn f hf)
    · obtain ⟨hnode, hsynced, hnot, hk8s⟩ := hspec h hm hf1
      have hmem : h ∈ l.etcd → ∀ f ∈ Layout.memberFilesOf h, SameFile master (final h) f := by
        intro he f hf
        cases hs : syncCerts checksum force l dirs facts h with
        | true => exact hsynced he hs f hf
        | false =>
          have hup := (hsync h he).mp hs
          exact (hnot he hs f hf).mpr ((hunsynced h he hup).mpr (hno h hm he hf1 hup) f hf)
      refine ⟨fun he f hf => (List.mem_append.mp hf).elim (hmem he f) (hnode he f), ?_⟩
      intro hn f hf
      by_cases he : h ∈ l.etcd
      · rw [Layout.nodeFilesOf, List.mem_cons] at hf
        rcases hf with rfl | hf
        · exact hmem he _ (by simp [Layout.memberFilesOf])
        · exact hnode he f (List.mem_flatMap.mpr ⟨h, (l.mem_k8sNodes h).mpr hn, hf⟩)
      · exact hk8s he hn f hf

end Spec

/-- Two further etcd hosts, the name of one being that of the other followed by "-key". -/
def clashing : Layout where
  first := "node1"
  otherEtcd := ["a", "a-key"]
  k8sCluster := ["node1"]
  calicoRr := []

def clashingPlay : Play clashing where
  hosts := ["node1", "a", "a-key"]
  nodup := by decide
  head_first := rfl

def filesOfA : CertDir :=
  (caPair 0).setAll
    [(keyFile .member "a", .key 1), (certFile .member "a", .cert "etcd-member-a" 1 0),
     (keyFile .admin "a", .key 2), (certFile .admin "a", .cert "etcd-admin-a" 2 0)]

def clashingDirs (h : String) : CertDir := if h = "a-key" then ∅ else filesOfA

def noFacts : SyncFacts := ⟨fun _ => false, fun _ => false⟩

/-- The certificate of host a-key replaces the key of host a on the first etcd node only. -/
theorem stale_key_stays :
    CaIntact (clashingDirs clashing.first) ∧
      (genCertsScript id false clashing noFacts clashingPlay clashingDirs 3).isSome ∧
      ¬ ∀ final, genCertsScript id false clashing noFacts clashingPlay clashingDirs 3 = some final →
        Distributed clashing clashingPlay final := by
  refine ⟨⟨0, by decide, by decide⟩, by decide, fun h => ?_⟩
  have ha : (genCertsScript id false clashing noFacts clashingPlay clashingDirs 3).bind
      (fun dirs => (dirs "a").lookup (keyFile .member "a")) = some (.key 1) := by decide
  have hfirst : (genCertsScript id false clashing noFacts clashingPlay clashingDirs 3).bind
      (fun dirs => (dirs "node1").lookup (keyFile .member "a")) =
        some (.cert "etcd-member-a-key" 5 0) := by decide
  cases hrun : genCertsScript id false clashing noFacts clashingPlay clashingDirs 3 with
  | none => simp [hrun] at ha
  | some final =>
    simp only [hrun, Option.bind_some] at ha hfirst
    obtain ⟨p, hp, hm⟩ := (h final hrun "a" (by decide)).1 (by decide) (keyFile .member "a")
      (by decide)
    have hkp : Pem.key 1 = p := by simpa [ha] using hp
    have hcp : Pem.cert "etcd-member-a-key" 5 0 = p := Option.some.inj (hfirst.symm.trans hm)
    exact Pem.noConfusion (hkp.trans hcp.symm)

def threeHosts : Layout where
  first := "node1"
  otherEtcd := ["node2"]
  k8sCluster := ["node1", "node3"]
  calicoRr := []

def threeHostsPlay : Play threeHosts where
  hosts := ["node1", "node2", "node3"]
  nodup := by decide
  head_first := rfl

theorem first_run_distributes : ∃ final, genCertsScript id false threeHosts noFacts threeHostsPlay
    (fun h => if h = "node1" then caPair 0 else ∅) 1 = some final ∧
      Distributed threeHosts threeHostsPlay final := by
  obtain ⟨final, hrun, hiff⟩ := distributed_iff id false threeHosts noFacts Function.injective_id
    threeHostsPlay (fun h => if h = "node1" then caPair 0 else ∅) 1 ⟨0, by decide, by decide⟩
    (by
      intro f p k hp hk
      simp only [threeHosts, caPair, if_true, OrderedDict.lookup_setItem,
        OrderedDict.lookup_empty] at hp
      split at hp
      · obtain rfl := Option.some.inj hp
        have hk0 : 0 = k := Option.some.inj hk
        omega
      · split at hp
        · obtain rfl := Option.some.inj hp
          have hk0 : 0 = k := Option.some.inj hk
          omega
        · cases hp)
  refine ⟨final, hrun, hiff.mpr fun h _ _ hne hup => ?_⟩
  obtain ⟨p, hp, -⟩ := hup.same "ca.pem" (by simp [Layout.memberFilesOf])
  have hne' : h ≠ "node1" := hne
  simp [hne'] at hp

end Kubespray.Etcd

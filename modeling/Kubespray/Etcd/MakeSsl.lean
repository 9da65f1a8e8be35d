import Kubespray.Etcd.Certs

/-! make-ssl-etcd.sh, and the chain of trust it leaves on the first etcd node. -/
namespace Kubespray.Etcd

/-- `${host%%.*}` -/
def shortName (host : String) : String := String.ofList (host.toList.takeWhile (· ≠ '.'))

/-- Key and certificate of one host; `n` numbers the new key, `ca` signs. -/
def certEntries (ca n : Nat) (kind : CertKind) (host : String) : List (String × Pem) :=
  [(keyFile kind host, .key n),
   (certFile kind host, .cert ("etcd-" ++ kind.text ++ "-" ++ shortName host) n ca)]

/-- The files the loop over MASTERS writes, in order. -/
def masterFiles (ca : Nat) : Nat → List String → List (String × Pem)
  | _, [] => []
  | n, h :: hs => certEntries ca n .member h ++ certEntries ca (n + 1) .admin h ++
      masterFiles ca (n + 2) hs

/-- The files the loop over HOSTS writes, in order. -/
def nodeFiles (ca : Nat) : Nat → List String → List (String × Pem)
  | _, [] => []
  | n, h :: hs => certEntries ca n .node h ++ nodeFiles ca (n + 1) hs

def issuedFiles (ca n : Nat) (masters hosts : List String) : List (String × Pem) :=
  masterFiles ca n masters ++ nodeFiles ca (n + 2 * masters.length) hosts

def caPair (k : Nat) : CertDir :=
  ((∅ : CertDir).setItem "ca-key.pem" (.key k)).setItem "ca.pem" (.caCert k)

/-- Root CA: the key that signs and the number of the next key. Copying an existing CA
fails without ca.pem, and openssl refuses a pair that does not match. -/
def rootCa (d : CertDir) (n : Nat) : Option (Nat × Nat) :=
  if "ca-key.pem" ∈ d.keys then
    match d.lookup "ca.pem", d.lookup "ca-key.pem" with
    | some (.caCert k), some (.key k') => if k = k' then some (k, n) else none
    | _, _ => none
  else some (n, n + 1)

/-- The working directory when the files are installed: an existing CA is not installed again. -/
def workDir (reuse : Bool) (ca : Nat) (issued : List (String × Pem)) : CertDir :=
  let tmp := (caPair ca).setAll issued
  if reuse then tmp.filterKeys fun f => f ∉ ["ca.pem", "ca-key.pem"] else tmp

/-- make-ssl-etcd.sh on the directory `d`; none where errexit stops it. -/
def makeSslEtcd (masters hosts : List String) (d : CertDir) (n : Nat) : Option CertDir := do
  let (ca, n) ← rootCa d n
  let tmp := workDir ("ca-key.pem" ∈ d.keys) ca (issuedFiles ca n masters hosts)
  -- mv *.pem fails when there is nothing to move
  if tmp.keys = [] then none else some (d.setAll tmp.entries)

/-- Gen_certs | run cert generation script -/
def runCertScript (force : Bool) (l : Layout) (d : CertDir) (n : Nat) : Option CertDir :=
  if genCerts force l d then
    makeSslEtcd (l.etcd.filter (genMasterCerts force d)) (l.k8sNodes.filter (genNodeCerts force d))
      d n
  else some d

def IssuedFor (ca : Nat) (c : CertKind × String) (e : String × Pem) : Prop :=
  (e.1 = certFile c.1 c.2 ∧ ∃ cn k, e.2 = .cert cn k ca) ∨ (e.1 = keyFile c.1 c.2 ∧ ∃ k, e.2 = .key k)

theorem issuedFor_of_mem (ca n : Nat) (kind : CertKind) (host : String) (e : String × Pem)
    (h : e ∈ certEntries ca n kind host) : IssuedFor ca (kind, host) e := by
  simp only [certEntries, List.mem_cons, List.not_mem_nil, or_false] at h
  rcases h with rfl | rfl
  · exact .inr ⟨rfl, n, rfl⟩
  · exact .inl ⟨rfl, _, n, rfl⟩

theorem names_certEntries (ca n : Nat) (kind : CertKind) (host : String) :
    (certEntries ca n kind host).map Prod.fst = [keyFile kind host, certFile kind host] := rfl

theorem mem_masterFiles (ca n : Nat) (hs : List String) (e : String × Pem)
    (h : e ∈ masterFiles ca n hs) : ∃ x ∈ hs, ∃ k, n ≤ k ∧
      (e ∈ certEntries ca k .member x ∨ e ∈ certEntries ca k .admin x) := by
  induction hs generalizing n with
  | nil => simp [masterFiles] at h
  | cons x hs ih =>
    simp only [masterFiles, List.mem_append] at h
    rcases h with (h | h) | h
    · exact ⟨x, by simp, n, by omega, .inl h⟩
    · exact ⟨x, by simp, n + 1, by omega, .inr h⟩
    · obtain ⟨y, hy, k, hk, he⟩ := ih (n + 2) h
      exact ⟨y, List.mem_cons_of_mem x hy, k, by omega, he⟩

theorem mem_nodeFiles (ca n : Nat) (hs : List String) (e : String × Pem)
    (h : e ∈ nodeFiles ca n hs) : ∃ x ∈ hs, ∃ k, n ≤ k ∧ e ∈ certEntries ca k .node x := by
  induction hs generalizing n with
  | nil => simp [nodeFiles] at h
  | cons x hs ih =>
    simp only [nodeFiles, List.mem_append] at h
    cases h with
    | inl h => exact ⟨x, by simp, n, by omega, h⟩
    | inr h =>
      obtain ⟨y, hy, k, hk, he⟩ := ih (n + 1) h
      exact ⟨y, List.mem_cons_of_mem x hy, k, by omega, he⟩

theorem mem_names_masterFiles (ca n : Nat) (hs : List String) (f : String) :
    f ∈ (masterFiles ca n hs).map Prod.fst ↔ ∃ x ∈ hs,
      (f = keyFile .member x ∨ f = certFile .member x) ∨
      (f = keyFile .admin x ∨ f = certFile .admin x) := by
  induction hs generalizing n with
  | nil => simp [masterFiles]
  | cons x hs ih =>
    simp only [masterFiles, List.map_append, List.mem_append, names_certEntries, ih, List.mem_cons,
      List.not_mem_nil, or_false, exists_eq_or_imp]

theorem mem_names_nodeFiles (ca n : Nat) (hs : List String) (f : String) :
    f ∈ (nodeFiles ca n hs).map Prod.fst ↔ ∃ x ∈ hs, f = keyFile .node x ∨ f = certFile .node x := by
  induction hs generalizing n with
  | nil => simp [nodeFiles]
  | cons x hs ih =>
    simp only [nodeFiles, List.map_append, List.mem_append, names_certEntries, ih, List.mem_cons,
      List.not_mem_nil, or_false, exists_eq_or_imp]

theorem ownKey_of_mem_certEntries (ca n : Nat) (kind : CertKind) (host : String)
    (e : String × Pem) (h : e ∈ certEntries ca n kind host) : e.2.ownKey = some n := by
  simp only [certEntries, List.mem_cons, List.not_mem_nil, or_false] at h
  rcases h with rfl | rfl <;> rfl

theorem ownKey_of_mem_issuedFiles (ca n : Nat) (masters hosts : List String) (e : String × Pem)
    (h : e ∈ issuedFiles ca n masters hosts) : ∃ k, n ≤ k ∧ e.2.ownKey = some k := by
  cases List.mem_append.mp h with
  | inl h =>
    obtain ⟨x, -, k, hk, he⟩ := mem_masterFiles ca n masters e h
    rcases he with he | he
    · exact ⟨k, hk, ownKey_of_mem_certEntries ca k _ x e he⟩
    · exact ⟨k, hk, ownKey_of_mem_certEntries ca k _ x e he⟩
  | inr h =>
    obtain ⟨x, -, k, hk, he⟩ := mem_nodeFiles ca _ hosts e h
    exact ⟨k, by omega, ownKey_of_mem_certEntries ca k _ x e he⟩

theorem rootCa_reuse (d : CertDir) (n ca m : Nat) (hk : "ca-key.pem" ∈ d.keys)
    (h : rootCa d n = some (ca, m)) :
    d.lookup "ca.pem" = some (.caCert ca) ∧ d.lookup "ca-key.pem" = some (.key ca) := by
  rw [rootCa, if_pos hk] at h
  split at h
  · rename_i k k' h1 h2
    split at h
    · rename_i hkk
      have hca : k = ca ∧ n = m := by simpa using h
      exact ⟨hca.1 ▸ h1, hca.1 ▸ hkk ▸ h2⟩
    · cases h
  · cases h

theorem rootCa_new (d : CertDir) (n : Nat) (hk : "ca-key.pem" ∉ d.keys) :
    rootCa d n = some (n, n + 1) := if_neg hk

section Script
variable (force : Bool) (l : Layout) (d : CertDir)

/-- What the script is asked to issue in this run. -/
def toIssue (ca n : Nat) : List (String × Pem) :=
  issuedFiles ca n (l.etcd.filter (genMasterCerts force d)) (l.k8sNodes.filter (genNodeCerts force d))

theorem mem_toIssue (ca n : Nat) (e : String × Pem) (h : e ∈ toIssue force l d ca n) :
    ∃ c ∈ l.certs, generates force d c = true ∧ IssuedFor ca c e := by
  rw [toIssue, issuedFiles, List.mem_append] at h
  cases h with
  | inl h =>
    obtain ⟨x, hx, k, -, he⟩ := mem_masterFiles ca n _ e h
    obtain ⟨hm, hg⟩ := List.mem_filter.mp hx
    rcases he with he | he
    · exact ⟨(.member, x), (l.mem_certs_member x).mpr hm, hg, issuedFor_of_mem ca k _ x e he⟩
    · exact ⟨(.admin, x), (l.mem_certs_admin x).mpr hm, hg, issuedFor_of_mem ca k _ x e he⟩
  | inr h =>
    obtain ⟨x, hx, k, -, he⟩ := mem_nodeFiles ca _ _ e h
    obtain ⟨hm, hg⟩ := List.mem_filter.mp hx
    exact ⟨(.node, x), (l.mem_certs_node x).mpr hm, hg, issuedFor_of_mem ca k _ x e he⟩

theorem mem_names_toIssue (ca n : Nat) (c : CertKind × String) (hc : c ∈ l.certs)
    (hg : generates force d c = true) :
    certFile c.1 c.2 ∈ (toIssue force l d ca n).map Prod.fst ∧
      keyFile c.1 c.2 ∈ (toIssue force l d ca n).map Prod.fst := by
  simp only [toIssue, issuedFiles, List.map_append, List.mem_append, mem_names_masterFiles,
    mem_names_nodeFiles, List.mem_filter]
  obtain ⟨kind, x⟩ := c
  cases kind with
  | member =>
    have hx := (l.mem_certs_member x).mp hc
    exact ⟨.inl ⟨x, ⟨hx, hg⟩, .inl (.inr rfl)⟩, .inl ⟨x, ⟨hx, hg⟩, .inl (.inl rfl)⟩⟩
  | admin =>
    have hx := (l.mem_certs_admin x).mp hc
    exact ⟨.inl ⟨x, ⟨hx, hg⟩, .inr (.inr rfl)⟩, .inl ⟨x, ⟨hx, hg⟩, .inr (.inl rfl)⟩⟩
  | node =>
    have hx := (l.mem_certs_node x).mp hc
    exact ⟨.inr ⟨x, ⟨hx, hg⟩, .inr rfl⟩, .inr ⟨x, ⟨hx, hg⟩, .inl rfl⟩⟩

theorem mem_names_toIssue_iff (ca n : Nat) (f : String) :
    f ∈ (toIssue force l d ca n).map Prod.fst ↔
      ∃ c ∈ l.certs, generates force d c = true ∧ (f = certFile c.1 c.2 ∨ f = keyFile c.1 c.2) := by
  constructor
  · intro h
    obtain ⟨e, he, hn⟩ := List.mem_map.mp h
    obtain ⟨c, hc, hg, hi⟩ := mem_toIssue force l d ca n e he
    exact ⟨c, hc, hg, hn ▸ hi.imp And.left And.left⟩
  · intro hfacts
    obtain ⟨c, hc, hg, hf⟩ := hfacts
    obtain ⟨hcn, hkn⟩ := mem_names_toIssue force l d ca n c hc hg
    cases hf with
    | inl hf => exact hf ▸ hcn
    | inr hf => exact hf ▸ hkn

theorem certFile_of_cert_iff (kind : CertKind) (host : String) (c : CertKind × String) :
    (certFile kind host = certFile c.1 c.2 ∨ certFile kind host = keyFile c.1 c.2) ↔
      kind = c.1 ∧ (host = c.2 ∨ host = c.2 ++ "-key") := by
  rw [keyFile_eq, certFile_inj, certFile_inj, and_or_left]

/-- The run does not touch the files of a certificate it does not generate, unless the
host's name and another one's differ by "-key". -/
theorem not_mem_names_of_not_generates (ca n : Nat) (c : CertKind × String)
    (hg : generates force d c = false)
    (happart : ∀ c' ∈ l.certs, c'.1 = c.1 → c.2 ≠ c'.2 ++ "-key" ∧ c'.2 ≠ c.2 ++ "-key") :
    certFile c.1 c.2 ∉ (toIssue force l d ca n).map Prod.fst ∧
      keyFile c.1 c.2 ∉ (toIssue force l d ca n).map Prod.fst := by
  have hne : ∀ c', generates force d c' = true → c ≠ c' := by
    intro c' hg' he
    rw [← he, hg] at hg'
    cases hg'
  rw [mem_names_toIssue_iff, mem_names_toIssue_iff, keyFile_eq]
  constructor
  · intro hfacts
    obtain ⟨c', hc', hg', hf⟩ := hfacts
    obtain ⟨hk, hx⟩ := (certFile_of_cert_iff _ _ c').mp hf
    cases hx with
    | inl hx => exact hne c' hg' (Prod.ext hk hx)
    | inr hx => exact (happart c' hc' hk.symm).1 hx
  · intro hfacts
    obtain ⟨c', hc', hg', hf⟩ := hfacts
    obtain ⟨hk, hx⟩ := (certFile_of_cert_iff _ _ c').mp hf
    cases hx with
    | inl hx => exact (happart c' hc' hk.symm).2 hx.symm
    | inr hx => exact hne c' hg' (Prod.ext hk (by simpa using hx))

theorem ca_not_mem_names (ca n : Nat) :
    "ca.pem" ∉ (toIssue force l d ca n).map Prod.fst ∧
      "ca-key.pem" ∉ (toIssue force l d ca n).map Prod.fst := by
  have hne (f : String) (hf : f = "ca.pem" ∨ f = "ca-key.pem") (c : CertKind × String) :
      ¬ (f = certFile c.1 c.2 ∨ f = keyFile c.1 c.2) := by
    have hc := certFile_ne_ca c.1 c.2
    have hk := certFile_ne_ca c.1 (c.2 ++ "-key")
    rw [← keyFile_eq] at hk
    rcases hf with rfl | rfl
    · exact fun h => h.elim hc.1.symm hk.1.symm
    · exact fun h => h.elim hc.2.symm hk.2.symm
  rw [mem_names_toIssue_iff, mem_names_toIssue_iff]
  constructor
  · intro hfacts
    obtain ⟨c, -, -, hf⟩ := hfacts
    exact hne _ (.inl rfl) c hf
  · intro hfacts
    obtain ⟨c, -, -, hf⟩ := hfacts
    exact hne _ (.inr rfl) c hf

theorem workDir_ca (reuse : Bool) (ca : Nat) (issued : List (String × Pem))
    (hno : "ca.pem" ∉ issued.map Prod.fst ∧ "ca-key.pem" ∉ issued.map Prod.fst) :
    (workDir reuse ca issued).lookup "ca.pem" = (if reuse then none else some (.caCert ca)) ∧
    (workDir reuse ca issued).lookup "ca-key.pem" = (if reuse then none else some (.key ca)) := by
  cases reuse with
  | true => simp [workDir]
  | false =>
    constructor
    · simp [workDir, OrderedDict.lookup_setAll_of_not_mem _ _ _ hno.1, caPair]
    · simp [workDir, OrderedDict.lookup_setAll_of_not_mem _ _ _ hno.2, caPair]

theorem workDir_file (reuse : Bool) (ca : Nat) (issued : List (String × Pem)) (f : String)
    (hf : f ≠ "ca.pem" ∧ f ≠ "ca-key.pem") :
    (workDir reuse ca issued).lookup f = ((caPair ca).setAll issued).lookup f := by
  cases reuse <;> simp [workDir, hf]

/-- A completed script leaves the pair it signed with, the files it issued, and every
other file as it was. -/
theorem runCertScript_spec (n : Nat) (d' : CertDir) (hgen : genCerts force l d = true)
    (h : runCertScript force l d n = some d') :
    ∃ ca m, rootCa d n = some (ca, m) ∧
      d'.lookup "ca.pem" = some (.caCert ca) ∧ d'.lookup "ca-key.pem" = some (.key ca) ∧
      ∀ f, f ≠ "ca.pem" ∧ f ≠ "ca-key.pem" →
        (f ∉ (toIssue force l d ca m).map Prod.fst → d'.lookup f = d.lookup f) ∧
        (f ∈ (toIssue force l d ca m).map Prod.fst →
          ∃ c, d'.lookup f = some c ∧ (f, c) ∈ toIssue force l d ca m) := by
  rw [runCertScript, if_pos hgen, makeSslEtcd] at h
  cases hr : rootCa d n with
  | none => simp [hr] at h
  | some p =>
    obtain ⟨ca, m⟩ := p
    simp only [hr, Option.bind_eq_bind, Option.bind_some, Option.ite_none_left_eq_some,
      Option.some.injEq] at h
    have hd : d' = d.setAll
      (workDir ("ca-key.pem" ∈ d.keys) ca (toIssue force l d ca m)).entries := h.2.symm
    have hca := workDir_ca ("ca-key.pem" ∈ d.keys) ca _ (ca_not_mem_names force l d ca m)
    refine ⟨ca, m, rfl, ?_, ?_, ?_⟩
    · rw [hd, OrderedDict.lookup_setAll_entries, hca.1]
      by_cases hk : "ca-key.pem" ∈ d.keys
      · simp [hk, (rootCa_reuse d n ca m hk hr).1]
      · simp [hk]
    · rw [hd, OrderedDict.lookup_setAll_entries, hca.2]
      by_cases hk : "ca-key.pem" ∈ d.keys
      · simp [hk, (rootCa_reuse d n ca m hk hr).2]
      · simp [hk]
    · intro f hf
      rw [hd, OrderedDict.lookup_setAll_entries, workDir_file _ _ _ f hf]
      constructor
      · intro hn
        rw [OrderedDict.lookup_setAll_of_not_mem _ _ _ hn]
        simp [caPair, hf]
      · intro hm
        obtain ⟨c, hc, he⟩ := OrderedDict.lookup_setAll_of_mem (caPair ca) _ _ hm
        exact ⟨c, by rw [hc, Option.some_or], he⟩

end Script

/-- A pair that matches, as make-ssl-etcd.sh needs it to sign with. -/
def CaIntact (d : CertDir) : Prop :=
  ∃ k, d.lookup "ca.pem" = some (.caCert k) ∧ d.lookup "ca-key.pem" = some (.key k)

theorem exists_generates (force : Bool) (l : Layout) (d : CertDir) (hca : "ca.pem" ∈ d.keys)
    (hgen : genCerts force l d = true) : ∃ c ∈ l.certs, generates force d c = true := by
  cases force with
  | true => exact ⟨(.member, l.first), (l.mem_certs_member _).mpr List.mem_cons_self, rfl⟩
  | false =>
    by_contra hno
    have hkept : ∀ c ∈ l.certs, generates false d c = false := by
      intro c hc
      by_contra hg
      exact hno ⟨c, hc, by simpa using hg⟩
    have hall : ∀ f ∈ l.expectedFiles, f ∈ d.keys := by
      intro f hf
      rcases (l.mem_expectedFiles f).mp hf with rfl | ⟨c, hc, rfl | rfl⟩
      · exact hca
      · exact (mem_keys_of_not_generates false d c (hkept c hc)).1
      · exact (mem_keys_of_not_generates false d c (hkept c hc)).2
    rw [(genCerts_eq_false_iff l d).mpr hall] at hgen
    cases hgen

theorem not_generates_of_not_genCerts (force : Bool) (l : Layout) (d : CertDir)
    (hgen : genCerts force l d = false) (c : CertKind × String) (hc : c ∈ l.certs) :
    generates force d c = false := by
  have hforce : force = false := by
    cases force with
    | true => simp [genCerts, Layout.expectedFiles] at hgen
    | false => rfl
  subst hforce
  have hall := (genCerts_eq_false_iff l d).mp hgen
  have hfile : ∀ c ∈ l.certs, certFile c.1 c.2 ∈ d.keys ∧ keyFile c.1 c.2 ∈ d.keys :=
    fun c hc => ⟨hall _ ((l.mem_expectedFiles _).mpr (.inr ⟨c, hc, .inl rfl⟩)),
      hall _ ((l.mem_expectedFiles _).mpr (.inr ⟨c, hc, .inr rfl⟩))⟩
  obtain ⟨kind, h⟩ := c
  by_cases hk : kind = .node
  · subst hk
    exact (genNodeCerts_eq_false_iff false d h).mpr ⟨rfl, hfile (.node, h) hc⟩
  · rw [generates_of_ne_node false d hk, genMasterCerts_eq_false_iff]
    refine ⟨rfl, fun kind' hk' => hfile (kind', h) ?_⟩
    exact (l.mem_certs_of_ne_node hk' h).mpr ((l.mem_certs_of_ne_node hk h).mp hc)

/-- The files of `issued` have been put into `d`, and nothing else is different. -/
structure Installs (issued : List (String × Pem)) (d d' : CertDir) : Prop where
  kept : ∀ f, f ∉ issued.map Prod.fst → d'.lookup f = d.lookup f
  placed : ∀ f ∈ issued.map Prod.fst, ∃ c, d'.lookup f = some c ∧ (f, c) ∈ issued

theorem Installs.mem_keys {issued : List (String × Pem)} {d d' : CertDir} (h : Installs issued d d')
    {f : String} (hf : f ∈ d.keys) : f ∈ d'.keys := by
  by_cases hm : f ∈ issued.map Prod.fst
  · obtain ⟨c, hc, -⟩ := h.placed f hm
    exact (d'.mem_keys_iff f).mpr ⟨c, hc⟩
  · rw [d'.mem_keys_iff, h.kept f hm, ← d.mem_keys_iff]
    exact hf

theorem Installs.expected_mem {force : Bool} {l : Layout} {d d' : CertDir} {ca n : Nat}
    (h : Installs (toIssue force l d ca n) d d') (hca : "ca.pem" ∈ d.keys) :
    ∀ f ∈ l.expectedFiles, f ∈ d'.keys := by
  intro f hf
  rcases (l.mem_expectedFiles f).mp hf with rfl | ⟨c, hc, hfc⟩
  · exact h.mem_keys hca
  · cases hg : generates force d c with
    | true =>
      obtain ⟨p, hp, -⟩ := h.placed f
        ((mem_names_toIssue_iff force l d ca n f).mpr ⟨c, hc, hg, hfc⟩)
      exact (d'.mem_keys_iff f).mpr ⟨p, hp⟩
    | false =>
      obtain ⟨hcert, hkey⟩ := mem_keys_of_not_generates force d c hg
      exact h.mem_keys (hfc.elim (· ▸ hcert) (· ▸ hkey))

/-- On an intact CA the script completes, and the CA stays. -/
theorem runCertScript_installs (force : Bool) (l : Layout) (d : CertDir) (n k : Nat)
    (hca : d.lookup "ca.pem" = some (.caCert k)) (hkey : d.lookup "ca-key.pem" = some (.key k)) :
    ∃ d', runCertScript force l d n = some d' ∧ Installs (toIssue force l d k n) d d' := by
  have hcam : "ca.pem" ∈ d.keys := (d.mem_keys_iff _).mpr ⟨_, hca⟩
  have hkm : "ca-key.pem" ∈ d.keys := (d.mem_keys_iff _).mpr ⟨_, hkey⟩
  have hroot : rootCa d n = some (k, n) := by simp [rootCa, hkm, hca, hkey]
  cases hgen : genCerts force l d with
  | false =>
    refine ⟨d, by simp [runCertScript, hgen], fun _ _ => rfl, fun f hf => ?_⟩
    obtain ⟨c, hc, hg, -⟩ := (mem_names_toIssue_iff force l d k n f).mp hf
    rw [not_generates_of_not_genCerts force l d hgen c hc] at hg
    cases hg
  | true =>
    obtain ⟨c, hc, hg⟩ := exists_generates force l d hcam hgen
    have hne : (workDir ("ca-key.pem" ∈ d.keys) k (toIssue force l d k n)).keys ≠ [] := by
      obtain ⟨p, hp, -⟩ := OrderedDict.lookup_setAll_of_mem (caPair k) _ _
        (mem_names_toIssue force l d k n c hc hg).1
      rw [← workDir_file ("ca-key.pem" ∈ d.keys) k _ _ (certFile_ne_ca c.1 c.2)] at hp
      exact List.ne_nil_of_mem ((OrderedDict.mem_keys_iff _ _).mpr ⟨p, hp⟩)
    have hrun : runCertScript force l d n = some (d.setAll
        (workDir ("ca-key.pem" ∈ d.keys) k (toIssue force l d k n)).entries) := by
      rw [runCertScript, if_pos hgen, makeSslEtcd, hroot]
      exact if_neg hne
    obtain ⟨ca, m, hr, hca', hkey', hfiles⟩ := runCertScript_spec force l d n _ hgen hrun
    rw [hroot, Option.some.injEq, Prod.mk.injEq] at hr
    obtain ⟨rfl, rfl⟩ := hr
    have hno := ca_not_mem_names force l d k n
    refine ⟨_, hrun, fun f hf => ?_, fun f hf => ?_⟩
    · by_cases h1 : f = "ca.pem"
      · rw [h1, hca', hca]
      · by_cases h2 : f = "ca-key.pem"
        · rw [h2, hkey', hkey]
        · exact (hfiles f ⟨h1, h2⟩).1 hf
    · exact (hfiles f ⟨fun h => hno.1 (h ▸ hf), fun h => hno.2 (h ▸ hf)⟩).2 hf

/-- Every certificate of the current groups is there with its key and verifies under
the ca.pem that is there. -/
def ChainOfTrust (l : Layout) (d : CertDir) : Prop :=
  ∀ c ∈ l.certs, (∃ ca cn k, d.lookup "ca.pem" = some (.caCert ca) ∧
      d.lookup (certFile c.1 c.2) = some (.cert cn k ca)) ∧
    ∃ k, d.lookup (keyFile c.1 c.2) = some (.key k)

/-- The files that are present were issued under one CA. -/
structure IssuedUnder (ca : Nat) (l : Layout) (d : CertDir) : Prop where
  caCert : ∀ p, d.lookup "ca.pem" = some p → p = .caCert ca
  caKey : ∀ p, d.lookup "ca-key.pem" = some p → p = .key ca
  cert : ∀ c ∈ l.certs, ∀ p, d.lookup (certFile c.1 c.2) = some p → ∃ cn k, p = .cert cn k ca
  key : ∀ c ∈ l.certs, ∀ p, d.lookup (keyFile c.1 c.2) = some p → ∃ k, p = .key k

/-- A file cannot be a certificate and a key. -/
theorem ChainOfTrust.namesApart {l : Layout} {d : CertDir} (h : ChainOfTrust l d) :
    NamesApart l := by
  intro c hc c' hc' hk hn
  obtain ⟨-, k, hkey⟩ := h c hc
  obtain ⟨⟨ca, cn, k', -, hcert⟩, -⟩ := h c' hc'
  rw [keyFile_eq, hk, ← hn, hcert] at hkey
  cases hkey

theorem issued_of_generates (force : Bool) (l : Layout) (d d' : CertDir) (ca m : Nat)
    (happart : NamesApart l) (c : CertKind × String) (hc : c ∈ l.certs)
    (hg : generates force d c = true)
    (hissued : ∀ f, f ≠ "ca.pem" ∧ f ≠ "ca-key.pem" →
      f ∈ (toIssue force l d ca m).map Prod.fst →
      ∃ p, d'.lookup f = some p ∧ (f, p) ∈ toIssue force l d ca m) :
    (∃ cn k, d'.lookup (certFile c.1 c.2) = some (.cert cn k ca)) ∧
      ∃ k, d'.lookup (keyFile c.1 c.2) = some (.key k) := by
  obtain ⟨hcn, hkn⟩ := mem_names_toIssue force l d ca m c hc hg
  constructor
  · obtain ⟨p, hp, he⟩ := hissued _ (certFile_ne_ca c.1 c.2) hcn
    obtain ⟨c', hc', -, hi⟩ := mem_toIssue force l d ca m _ he
    rcases hi with ⟨-, cn, k, hpk⟩ | ⟨hf, -⟩
    · exact ⟨cn, k, hpk ▸ hp⟩
    · exact absurd hf (happart.certFile_ne_keyFile hc hc')
  · obtain ⟨p, hp, he⟩ := hissued _ (keyFile_eq c.1 c.2 ▸ certFile_ne_ca c.1 _) hkn
    obtain ⟨c', hc', -, hi⟩ := mem_toIssue force l d ca m _ he
    rcases hi with ⟨hf, -⟩ | ⟨-, k, hpk⟩
    · exact absurd hf.symm (happart.certFile_ne_keyFile hc' hc)
    · exact ⟨k, hpk ▸ hp⟩

theorem NamesApart.both {l : Layout} (h : NamesApart l) {c : CertKind × String} (hc : c ∈ l.certs) :
    ∀ c' ∈ l.certs, c'.1 = c.1 → c.2 ≠ c'.2 ++ "-key" ∧ c'.2 ≠ c.2 ++ "-key" :=
  fun c' hc' hk => ⟨h c' hc' c hc hk, h c hc c' hc' hk.symm⟩

theorem IssuedUnder.cert_of_mem {ca : Nat} {l : Layout} {d : CertDir} (h : IssuedUnder ca l d)
    {c : CertKind × String} (hc : c ∈ l.certs) (hm : certFile c.1 c.2 ∈ d.keys) :
    ∃ cn k, d.lookup (certFile c.1 c.2) = some (.cert cn k ca) := by
  obtain ⟨p, hp⟩ := (d.mem_keys_iff _).mp hm
  obtain ⟨cn, k, rfl⟩ := h.cert c hc p hp
  exact ⟨cn, k, hp⟩

theorem IssuedUnder.key_of_mem {ca : Nat} {l : Layout} {d : CertDir} (h : IssuedUnder ca l d)
    {c : CertKind × String} (hc : c ∈ l.certs) (hm : keyFile c.1 c.2 ∈ d.keys) :
    ∃ k, d.lookup (keyFile c.1 c.2) = some (.key k) := by
  obtain ⟨p, hp⟩ := (d.mem_keys_iff _).mp hm
  obtain ⟨k, rfl⟩ := h.key c hc p hp
  exact ⟨k, hp⟩

theorem IssuedUnder.chainOfTrust {ca : Nat} {l : Layout} {d : CertDir} (h : IssuedUnder ca l d)
    (hall : ∀ f ∈ l.expectedFiles, f ∈ d.keys) : ChainOfTrust l d := by
  intro c hc
  obtain ⟨p, hp⟩ := (d.mem_keys_iff _).mp (hall "ca.pem" (by simp [Layout.expectedFiles]))
  obtain ⟨cn, k, hcert⟩ := h.cert_of_mem hc
    (hall _ ((l.mem_expectedFiles _).mpr (.inr ⟨c, hc, .inl rfl⟩)))
  have hkey := h.key_of_mem hc (hall _ ((l.mem_expectedFiles _).mpr (.inr ⟨c, hc, .inr rfl⟩)))
  exact ⟨⟨ca, cn, k, h.caCert p hp ▸ hp, hcert⟩, hkey⟩

def oneHost : Layout where
  first := "node1"
  otherEtcd := []
  k8sCluster := ["node1"]
  calicoRr := []

/-- Its directory without the CA's key and without the node certificate. -/
def withoutCaKey : CertDir :=
  (∅ : CertDir).setAll
    [("ca.pem", .caCert 0),
     (keyFile .member "node1", .key 1), (certFile .member "node1", .cert "etcd-member-node1" 1 0),
     (keyFile .admin "node1", .key 2), (certFile .admin "node1", .cert "etcd-admin-node1" 2 0)]

theorem withoutCaKey_issuedUnder : IssuedUnder 0 oneHost withoutCaKey where
  caCert := by
    have h : withoutCaKey.lookup "ca.pem" = some (.caCert 0) := by decide
    simp [h]
  caKey := by
    have h : withoutCaKey.lookup "ca-key.pem" = none := by decide
    simp [h]
  cert := by
    have h : ∀ c ∈ oneHost.certs, withoutCaKey.lookup (certFile c.1 c.2) ∈
        [none, some (.cert "etcd-member-node1" 1 0), some (.cert "etcd-admin-node1" 2 0)] := by
      decide
    intro c hc p hp
    have hmem := h c hc
    simp only [hp, List.mem_cons, reduceCtorEq, Option.some.injEq, List.not_mem_nil, or_false,
      false_or] at hmem
    rcases hmem with rfl | rfl
    · exact ⟨_, _, rfl⟩
    · exact ⟨_, _, rfl⟩
  key := by
    have h : ∀ c ∈ oneHost.certs, withoutCaKey.lookup (keyFile c.1 c.2) ∈
        [none, some (.key 1), some (.key 2)] := by decide
    intro c hc p hp
    have hmem := h c hc
    simp only [hp, List.mem_cons, reduceCtorEq, Option.some.injEq, List.not_mem_nil, or_false,
      false_or] at hmem
    rcases hmem with rfl | rfl
    · exact ⟨_, rfl⟩
    · exact ⟨_, rfl⟩

end Kubespray.Etcd

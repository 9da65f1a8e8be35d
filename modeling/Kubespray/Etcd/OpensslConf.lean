import Kubespray.Lib.Fields
import Kubespray.Lib.OrderedDict
import Mathlib.Data.Bool.AllAny

/-! roles/etcd/templates/openssl.conf.j2: the section `alt_names` of the etcd certificates, which is
numbered by two counters in a dictionary. -/
namespace Kubespray.Etcd

inductive AltKind where
  | dns
  | ip
  deriving DecidableEq

def AltKind.text : AltKind → String
  | .dns => "DNS."
  | .ip => "IP."

/-- What the template reads of the inventory and the variables. -/
structure AltNameVars where
  etcd : List String
  accessIp : String → Option String
  ip : String → Option String
  fallbackIps : String → String
  apiserverLoadbalancerDomainName : Option String
  etcdCertAltNames : List String
  etcdCertAltIps : List String

/-- One entry of the section. -/
structure AltName where
  kind : AltKind
  index : Nat
  value : String

def AltName.key (a : AltName) : String := a.kind.text ++ toString a.index

def AltName.line (a : AltName) : String := a.key ++ " = " ++ a.value

section Template

/-- The dictionary `counter`. -/
structure Counter where
  dns : Nat := 2
  ip : Nat := 1

def Counter.get (c : Counter) : AltKind → Nat
  | .dns => c.dns
  | .ip => c.ip

/-- The macro `increment`. -/
def increment (c : Counter) : AltKind → Counter
  | .dns => { c with dns := c.dns + 1 }
  | .ip => { c with ip := c.ip + 1 }

/-- The counters and what has been rendered of the section. -/
structure Rendering where
  counter : Counter
  entries : List AltName

/-- `DNS.{{ counter["dns"] }} = {{ v }}{{ increment(counter, 'dns') }}`, and so for IP. -/
def emit (k : AltKind) (r : Rendering) (v : String) : Rendering :=
  ⟨increment r.counter k, r.entries ++ [⟨k, r.counter.get k, v⟩]⟩

def emitIfDefined (k : AltKind) (r : Rendering) (v : Option String) : Rendering :=
  match v with
  | some v => emit k r v
  | none => r

variable (s : AltNameVars)

/-- `{{ hostvars[host]['ip'] | default(fallback_ips[host]) }}` -/
def hostIp (host : String) : String := (s.ip host).getD (s.fallbackIps host)

def emitHostIps (r : Rendering) (host : String) : Rendering :=
  emit .ip (emitIfDefined .ip r (s.accessIp host)) (hostIp s host)

/-- The section up to its last line. -/
def renderNames : Rendering :=
  let r := s.etcd.foldl (emit .dns) ⟨{}, [⟨.dns, 1, "localhost"⟩]⟩
  let r := emitIfDefined .dns r s.apiserverLoadbalancerDomainName
  let r := s.etcdCertAltNames.foldl (emit .dns) r
  let r := s.etcd.foldl (emitHostIps s) r
  s.etcdCertAltIps.foldl (emit .ip) r

def altNames : List AltName :=
  (renderNames s).entries ++ [⟨.ip, (renderNames s).counter.ip, "127.0.0.1"⟩]

def altNamesSection : List String := "[alt_names]" :: (altNames s).map (·.line)

/-- How openssl reads a line: a key and a value, without the blanks around them. -/
def readLine (line : String) : Option (List Char × List Char) :=
  (splitOnce '=' line.toList).map fun p => (Fields.trim p.1, Fields.trim p.2)

/-- What openssl has of the section: for each key the value that comes last. -/
def subjectAltNames : OrderedDict (List Char) (List Char) :=
  (∅ : OrderedDict (List Char) (List Char)).setAll ((altNamesSection s).filterMap readLine)

end Template

section Numbered

def numbered (k : AltKind) (vs : List String) : List AltName :=
  (vs.zipIdx 1).map fun p => ⟨k, p.2, p.1⟩

def ofKind (k : AltKind) (l : List AltName) : List AltName := l.filter (·.kind = k)

theorem numbered_concat (k : AltKind) (vs : List String) (v : String) :
    numbered k (vs ++ [v]) = numbered k vs ++ [⟨k, vs.length + 1, v⟩] := by
  rw [numbered, List.zipIdx_append, List.map_append, numbered]
  simp [Nat.add_comm]

/-- The entries of the kind have these values, numbered from 1, and the counter is at the next. -/
structure Rendered (r : Rendering) (k : AltKind) (vs : List String) : Prop where
  entries : ofKind k r.entries = numbered k vs
  counter : r.counter.get k = vs.length + 1

variable {r : Rendering} {k j : AltKind} {vs : List String}

theorem Rendered.emit (h : Rendered r k vs) (v : String) : Rendered (emit k r v) k (vs ++ [v]) := by
  constructor
  · rw [Etcd.emit, numbered_concat, ← h.entries, ← h.counter, ofKind, ofKind, List.filter_append]
    simp
  · rw [Etcd.emit, List.length_append, List.length_singleton, ← h.counter]
    cases k <;> rfl

/-- The other kind is not touched. -/
theorem Rendered.emit_of_ne (h : Rendered r k vs) (hjk : j ≠ k) (v : String) :
    Rendered (Etcd.emit j r v) k vs := by
  constructor
  · rw [Etcd.emit, ← h.entries, ofKind, ofKind, List.filter_append]
    simp [hjk]
  · rw [Etcd.emit, ← h.counter]
    cases j <;> cases k <;> first | rfl | exact absurd rfl hjk

theorem Rendered.emitIfDefined (h : Rendered r k vs) (v : Option String) :
    Rendered (emitIfDefined k r v) k (vs ++ v.toList) := by
  cases v with
  | none =>
    rw [Option.toList_none, List.append_nil]
    exact h
  | some v => exact h.emit v

theorem Rendered.emitIfDefined_of_ne (h : Rendered r k vs) (hjk : j ≠ k) (v : Option String) :
    Rendered (Etcd.emitIfDefined j r v) k vs := by
  cases v with
  | none => exact h
  | some v => exact h.emit_of_ne hjk v

/-- A loop whose body adds values adds those of all its rounds. -/
theorem Rendered.foldl {β : Type*} {f : Rendering → β → Rendering} {added : β → List String}
    (hf : ∀ r vs b, Rendered r k vs → Rendered (f r b) k (vs ++ added b)) (h : Rendered r k vs)
    (bs : List β) : Rendered (bs.foldl f r) k (vs ++ bs.flatMap added) := by
  induction bs generalizing r vs with
  | nil => simpa using h
  | cons b bs ih =>
    rw [List.foldl_cons, List.flatMap_cons, ← List.append_assoc]
    exact ih (hf r vs b h)

theorem Rendered.emitAll (h : Rendered r k vs) (us : List String) :
    Rendered (us.foldl (Etcd.emit k) r) k (vs ++ us) := by
  have hall := h.foldl (fun r vs v hr => hr.emit v) us
  rwa [List.flatMap_singleton'] at hall

theorem Rendered.foldl_of_ne {β : Type*} {f : Rendering → β → Rendering}
    (hf : ∀ r b, Rendered r k vs → Rendered (f r b) k vs) (h : Rendered r k vs) (bs : List β) :
    Rendered (bs.foldl f r) k vs :=
  List.foldlRecOn bs f h fun r hr b _ => hf r b hr

end Numbered

section Complete
variable (s : AltNameVars)

def dnsValues : List String :=
  "localhost" :: (s.etcd ++ (s.apiserverLoadbalancerDomainName.toList ++ s.etcdCertAltNames))

def ipValues : List String :=
  s.etcd.flatMap (fun host => (s.accessIp host).toList ++ [hostIp s host]) ++ s.etcdCertAltIps

theorem rendered_dns : Rendered (renderNames s) .dns (dnsValues s) := by
  have hstart : Rendered ⟨{}, [⟨.dns, 1, "localhost"⟩]⟩ .dns ["localhost"] := ⟨rfl, rfl⟩
  have hnames := ((hstart.emitAll s.etcd).emitIfDefined s.apiserverLoadbalancerDomainName).emitAll
    s.etcdCertAltNames
  have hne : AltKind.ip ≠ .dns := by decide
  have hips := (hnames.foldl_of_ne (fun r host hr =>
    (hr.emitIfDefined_of_ne hne (s.accessIp host)).emit_of_ne hne (hostIp s host)) s.etcd).foldl_of_ne
      (fun r v hr => hr.emit_of_ne hne v) s.etcdCertAltIps
  have hvalues : dnsValues s = "localhost" :: s.etcd ++ s.apiserverLoadbalancerDomainName.toList ++
      s.etcdCertAltNames := by simp [dnsValues]
  rw [hvalues]
  exact hips

theorem rendered_ip : Rendered (renderNames s) .ip (ipValues s) := by
  have hstart : Rendered ⟨{}, [⟨.dns, 1, "localhost"⟩]⟩ .ip [] := ⟨rfl, rfl⟩
  have hne : AltKind.dns ≠ .ip := by decide
  have hnames := ((hstart.foldl_of_ne (fun r v hr => hr.emit_of_ne hne v) s.etcd).emitIfDefined_of_ne hne
    s.apiserverLoadbalancerDomainName).foldl_of_ne (fun r v hr => hr.emit_of_ne hne v) s.etcdCertAltNames
  have hips := (hnames.foldl (fun r vs host hr => by
    have hhost := (hr.emitIfDefined (s.accessIp host)).emit (hostIp s host)
    rwa [List.append_assoc] at hhost) s.etcd).emitAll s.etcdCertAltIps
  exact hips

/-- All entries of a kind, with the last line of the section. -/
theorem ofKind_altNames : ofKind .dns (altNames s) = numbered .dns (dnsValues s) ∧
    ofKind .ip (altNames s) = numbered .ip (ipValues s ++ ["127.0.0.1"]) := by
  constructor
  · rw [altNames, ofKind, List.filter_append, ← (rendered_dns s).entries, ofKind]
    simp
  · have hcounter : (renderNames s).counter.ip = (ipValues s).length + 1 := (rendered_ip s).counter
    rw [altNames, ofKind, List.filter_append, numbered_concat, ← (rendered_ip s).entries, hcounter, ofKind]
    simp

theorem indices_numbered (k : AltKind) (vs : List String) :
    (numbered k vs).map (·.index) = List.range' 1 vs.length := by
  rw [numbered, List.map_map]
  exact List.zipIdx_map_snd 1 vs

theorem values_numbered (k : AltKind) (vs : List String) : (numbered k vs).map (·.value) = vs := by
  rw [numbered, List.map_map]
  exact List.zipIdx_map_fst 1 vs

theorem key_injective {a b : AltName} (h : a.key = b.key) : a.kind = b.kind ∧ a.index = b.index := by
  obtain ⟨k, i, v⟩ := a
  obtain ⟨j, n, w⟩ := b
  simp only [AltName.key] at h
  cases k <;> cases j
  · exact ⟨rfl, toString_nat_injective (String.append_right_inj _ |>.mp h)⟩
  · exact absurd (congrArg (fun t => t.toList.head?) h) (by simp [AltKind.text])
  · exact absurd (congrArg (fun t => t.toList.head?) h) (by simp [AltKind.text])
  · exact ⟨rfl, toString_nat_injective (String.append_right_inj _ |>.mp h)⟩

theorem mem_key {a : AltName} {c : Char} (h : c ∈ a.key.toList) :
    c ∈ ['D', 'N', 'S', 'I', 'P', '.'] ∨ c.isDigit = true := by
  rw [AltName.key, String.toList_append, List.mem_append] at h
  cases h with
  | inl hkind =>
    revert hkind
    cases a.kind <;> simp [AltKind.text] <;> tauto
  | inr hindex =>
    have hdigits : c ∈ Nat.toDigits 10 a.index := by simpa using hindex
    exact .inr (Nat.isDigit_of_mem_toDigits (by decide) (by decide) hdigits)

theorem readLine_line (a : AltName) :
    readLine a.line = some (a.key.toList, Fields.trim a.value.toList) := by
  have hequals : '=' ∉ a.key.toList := fun h => by simpa using mem_key h
  have hspaces : ∀ c ∈ a.key.toList, Fields.isSpace c = false := by
    intro c hc
    cases mem_key hc with
    | inl hletter =>
      have hletters : ∀ x ∈ ['D', 'N', 'S', 'I', 'P', '.'], Fields.isSpace x = false :=
        List.all_iff_forall_prop.mp (by decide)
      exact hletters c hletter
    | inr hdigit => exact Fields.isSpace_of_isDigit hdigit
  have hne : a.key.toList ≠ [] := by
    cases hkind : a.kind <;> simp [AltName.key, hkind, AltKind.text]
  have hline : a.line.toList = (a.key.toList ++ [' ']) ++ '=' :: ' ' :: a.value.toList := by
    simp [AltName.line]
  have hno : '=' ∉ a.key.toList ++ [' '] := by simp [hequals]
  rw [readLine, hline, splitOnce_append '=' _ _ hno, Option.map_some, Fields.trim_append_space hspaces hne,
    Fields.trim_space_cons]

/-- Entries with different numbers in each kind have different keys. -/
theorem nodup_keys {l : List AltName} (h : ∀ k, ((ofKind k l).map (·.index)).Nodup) :
    (l.map (·.key)).Nodup := by
  induction l with
  | nil => exact List.nodup_nil
  | cons a l ih =>
    have htail : ∀ k, ((ofKind k l).map (·.index)).Nodup := fun k =>
      (h k).sublist ((List.Sublist.filter _ (List.sublist_cons_self a l)).map _)
    have hown := h a.kind
    rw [ofKind, List.filter_cons_of_pos (by simp), List.map_cons, List.nodup_cons] at hown
    rw [List.map_cons, List.nodup_cons]
    refine ⟨fun hmem => hown.1 ?_, ih htail⟩
    obtain ⟨b, hb, hkey⟩ := List.mem_map.mp hmem
    obtain ⟨hkind, hindex⟩ := key_injective hkey
    exact List.mem_map.mpr ⟨b, List.mem_filter.mpr ⟨hb, by simp [hkind]⟩, hindex⟩

/-- The section has what the certificate needs, and openssl sees all of it. -/
structure CompleteNames : Prop where
  indices : ∀ k, (ofKind k (altNames s)).map (·.index) = List.range' 1 (ofKind k (altNames s)).length
  dns : ∀ v, v ∈ (ofKind .dns (altNames s)).map (·.value) ↔ v = "localhost" ∨ v ∈ s.etcd ∨
    s.apiserverLoadbalancerDomainName = some v ∨ v ∈ s.etcdCertAltNames
  ip : ∀ v, v ∈ (ofKind .ip (altNames s)).map (·.value) ↔ (∃ host ∈ s.etcd, s.accessIp host = some v) ∨
    (∃ host ∈ s.etcd, (s.ip host).getD (s.fallbackIps host) = v) ∨ v ∈ s.etcdCertAltIps ∨ v = "127.0.0.1"
  seen : (subjectAltNames s).entries =
    (altNames s).map fun a => (a.key.toList, Fields.trim a.value.toList)

theorem altNames_complete : CompleteNames s := by
  have hindices : ∀ k, (ofKind k (altNames s)).map (·.index) =
      List.range' 1 (ofKind k (altNames s)).length := by
    intro k
    cases k with
    | dns => rw [(ofKind_altNames s).1, indices_numbered, numbered, List.length_map, List.length_zipIdx]
    | ip => rw [(ofKind_altNames s).2, indices_numbered, numbered, List.length_map, List.length_zipIdx]
  refine ⟨hindices, fun v => ?_, fun v => ?_, ?_⟩
  · rw [(ofKind_altNames s).1, values_numbered, dnsValues]
    simp
  · rw [(ofKind_altNames s).2, values_numbered, ipValues]
    simp only [List.mem_append, List.mem_flatMap, Option.mem_toList, List.mem_singleton, hostIp,
      and_or_left, exists_or, or_assoc, eq_comm (a := v)]
  · have hread : (altNamesSection s).filterMap readLine =
        (altNames s).map fun a => (a.key.toList, Fields.trim a.value.toList) := by
      have hheader : readLine "[alt_names]" = none := by decide
      rw [altNamesSection, List.filterMap_cons_none hheader, List.filterMap_map, ← List.filterMap_eq_map]
      exact congrArg (List.filterMap · (altNames s)) (funext readLine_line)
    rw [subjectAltNames, hread, OrderedDict.empty_setAll_entries]
    rw [List.map_map]
    have hkeys := nodup_keys fun k => hindices k ▸ List.nodup_range'
    have htexts := hkeys.map fun _ _ => String.toList_inj.mp
    rwa [List.map_map] at htexts

end Complete

end Kubespray.Etcd

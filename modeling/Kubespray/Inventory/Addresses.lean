import Kubespray.Inventory.HostForms

/-! Arguments that are addresses: what build_hostnames makes of a list of them, as a fold
over the hosts and the next number. -/
namespace Kubespray.Inventory

/-- An argument `ip` or `ip,access_ip` with dotted IPv4 addresses. -/
structure AddressArg where
  ip : IPv4
  accessIp : Option IPv4
  deriving DecidableEq

namespace AddressArg

def access (a : AddressArg) : String := (a.accessIp.getD a.ip).exploded

def text (a : AddressArg) : String :=
  match a.accessIp with
  | none => a.ip.exploded
  | some b => a.ip.exploded ++ "," ++ b.exploded

theorem not_mem_exploded {a : IPv4} {c : Char} (hd : c.isDigit = false) (hc : c ≠ '.') :
    c ∉ a.exploded.toList := by
  intro h
  cases a.exploded_chars c h with
  | inl hdigit =>
    rw [hd] at hdigit
    cases hdigit
  | inr hdot => exact hc hdot

theorem dot_mem_text (a : AddressArg) : '.' ∈ a.text.toList := by
  rw [text]
  split <;> simp [a.ip.dot_mem_exploded]

theorem text_not_command (a : AddressArg) : a.text ∉ availableCommands := by
  intro h
  have hno : ∀ c ∈ availableCommands, '.' ∉ c.toList := by decide
  exact hno a.text h a.dot_mem_text

end AddressArg

/-- The list of arguments of an invocation. -/
def addressArgs (l : List AddressArg) (h : l ≠ []) : HostArgs where
  args := l.map AddressArg.text
  nonempty := by simpa using h
  notCommand := by
    rw [List.head_map]
    exact AddressArg.text_not_command _

theorem AddressArg.not_mem_field {a : AddressArg} {c : Char} (hd : c.isDigit = false) (hc : c ≠ '.')
    {f : String} (hf : f ∈ a.ip.exploded :: (a.accessIp.map IPv4.exploded).toList) :
    c ∉ f.toList := by
  cases List.mem_cons.mp hf with
  | inl hip =>
    rw [hip]
    exact not_mem_exploded hd hc
  | inr haccess =>
    obtain ⟨b, -, rfl⟩ := Option.map_eq_some_iff.mp (Option.mem_toList.mp haccess)
    exact not_mem_exploded hd hc

/-- The argument as one of the documented forms. -/
def AddressArg.toAdd (t : CharTables) (a : AddressArg) : HostAdd t where
  name := none
  ip := a.ip.exploded
  accessIp := a.accessIp.map IPv4.exploded
  noComma _ hf := not_mem_field rfl (by decide) hf
  named := by simp
  address _ := by
    obtain ⟨c, cs, hc, hd⟩ := a.ip.exploded_cons
    have hascii : c.toNat < 128 := Nat.lt_of_le_of_lt (Char.isDigit_iff_toNat.mp hd).2 (by decide)
    exact ⟨c, cs, hc, (t.isdigit_ascii c hascii).trans hd⟩
  noRange _ _ hf := not_mem_field rfl (by decide) hf

theorem AddressArg.text_toAdd (t : CharTables) (a : AddressArg) : (a.toAdd t).text = a.text := by
  cases hb : a.accessIp <;> simp [HostAdd.text, toAdd, AddressArg.text, hb, String.append_assoc]

/-- The ip in a host's options, where they are a mapping that has one as a string. -/
def optIp : Value → Option String
  | .obj fields =>
    match fields.lookup "ip" with
    | some (.str ip) => some ip
    | _ => none
  | _ => none

theorem getIpFromOpts_eq {v : Value} {ip : String} (h : optIp v = some ip) :
    getIpFromOpts v = .ok (.str ip) := by
  cases v with
  | obj fields =>
    simp only [optIp] at h
    split at h
    · rename_i hl
      rw [getIpFromOpts, hl, Option.some.inj h]
    · cases h
  | _ => simp [optIp] at h

def HasIps (d : HostMap) : Prop := ∀ k v, d.lookup k = some v → (optIp v).isSome

def hostIps (d : HostMap) : List String := d.entries.filterMap fun e => optIp e.2

theorem HasIps.of_mem {d : HostMap} (h : HasIps d) {e : String × Value} (he : e ∈ d.entries) :
    ∃ ip, optIp e.2 = some ip :=
  Option.isSome_iff_exists.mp (h e.1 e.2 ((d.lookup_eq_some_iff e.1 e.2).mpr he))

theorem HasIps.of_subset {d d' : HostMap} (h : HasIps d) (hs : d'.entries ⊆ d.entries) :
    HasIps d' := by
  intro k v hv
  exact h k v ((d.lookup_eq_some_iff k v).mpr (hs ((d'.lookup_eq_some_iff k v).mp hv)))

theorem HasIps.filterKeys {d : HostMap} (h : HasIps d) (p : String → Bool) :
    HasIps (d.filterKeys p) :=
  h.of_subset (List.filter_subset_self d.entries)

theorem HasIps.setItem {d : HostMap} (h : HasIps d) (k : String) {v : Value}
    (hv : (optIp v).isSome) : HasIps (d.setItem k v) := by
  intro x w hw
  rw [OrderedDict.lookup_setItem] at hw
  split at hw
  · exact Option.some.inj hw ▸ hv
  · exact h x w hw

theorem HasIps.setAll {d : HostMap} (h : HasIps d) {t : HostMap} (ht : HasIps t) :
    HasIps (d.setAll t.entries) := by
  intro x w hw
  rw [OrderedDict.lookup_setAll_entries] at hw
  rcases Option.or_eq_some_iff.mp hw with hw | ⟨-, hw⟩
  · exact ht x w hw
  · exact h x w hw

theorem optIp_hostOpts (ip accessIp : String) : optIp (hostOpts ip accessIp) = some ip := rfl

theorem hasIp_iff (ip : String) (v : Value) : hasIp ip v = true ↔ optIp v = some ip := by
  constructor
  · intro h
    have hget := getIpFromOpts_isOk h
    cases v with
    | obj fields =>
      simp only [getIpFromOpts] at hget
      split at hget
      · rename_i hl
        rw [optIp, hl, Except.ok.inj hget]
      · cases hget
    | arr items =>
      rw [getIpFromOpts] at hget
      split at hget <;> cases hget
    | str text =>
      rw [getIpFromOpts] at hget
      split at hget <;> cases hget
    | _ => cases hget
  · intro h
    simp [hasIp, getIpFromOpts_eq h, Except.toOption, Value.isStr]

theorem knowsIp_iff (d : HostMap) (ip : String) : knowsIp d ip = true ↔ ip ∈ hostIps d := by
  simp [knowsIp, hostIps, hasIp_iff]

theorem HasIps.readable {d : HostMap} (h : HasIps d) : IpsReadable d := by
  intro e he
  obtain ⟨ip, hip⟩ := h.of_mem he
  exact ⟨_, getIpFromOpts_eq hip⟩

/-- What an argument does to the hosts and the next number. -/
def addTo (s : Settings) (p : HostMap × Nat) (a : AddressArg) : HostMap × Nat :=
  if a.text ∈ p.1.keys ∨ a.ip.exploded ∈ hostIps p.1 then p
  else (p.1.setItem (hostName s p.2) (hostOpts a.ip.exploded a.access), p.2 + 1)

theorem addTo_hasIps (s : Settings) (p : HostMap × Nat) (a : AddressArg) (h : HasIps p.1) :
    HasIps (addTo s p a).1 := by
  rw [addTo]
  split
  · exact h
  · exact h.setItem _ rfl

theorem addTo_eq (s : Settings) (p : HostMap × Nat) (a : AddressArg) :
    addTo s p a = (HostForm.add (a.toAdd s.tables)).change s p := by
  have hskip : (a.toAdd s.tables).Skipped p.1 ↔ a.text ∈ p.1.keys ∨ a.ip.exploded ∈ hostIps p.1 := by
    rw [HostAdd.Skipped, a.text_toAdd, knowsIp_iff]
    rfl
  have hopts : (a.toAdd s.tables).opts = hostOpts a.ip.exploded a.access := by
    cases hb : a.accessIp <;>
      simp [HostAdd.opts, HostAdd.access, AddressArg.toAdd, AddressArg.access, hb]
  rw [addTo, HostForm.change, addHost, hopts]
  simp only [hskip]
  rfl

/-- The mapping that build_hostnames makes of the stored hosts and the addresses. -/
def hostsFrom (s : Settings) (d : HostMap) (l : List AddressArg) : HostMap :=
  (l.foldl (addTo s) (scanStart s d)).1

theorem scannedHosts_hasIps (t : CharTables) {d : HostMap} (h : HasIps d) :
    HasIps (scannedHosts t d) := h.of_subset (scanned_initial t d.entries).subset

theorem newHosts_texts (s : Settings) (hs : s.useRealHostname = false) (a : AllGroup) (d : HostMap)
    (hd : a.hosts = .mapping d) (h : HasIps d) (l : List AddressArg) :
    newHosts s a (l.map AddressArg.text) = .ok (hostsFrom s d l) := by
  have htexts : l.map AddressArg.text =
      (l.map fun a => HostForm.add (a.toAdd s.tables)).map HostForm.text := by
    rw [List.map_map]
    exact List.map_congr_left fun a _ => (a.text_toAdd s.tables).symm
  have hchange : addTo s = fun p a => (HostForm.add (a.toAdd s.tables)).change s p :=
    funext fun p => funext fun a => addTo_eq s p a
  rw [htexts, newHosts_forms hs a d hd h.readable, List.foldl_map, hostsFrom, hchange]

/-- A host may have been added, with an ip that exists_ip did not find. -/
def AddsHost (d d' : HostMap) : Prop :=
  d' = d ∨ ∃ name ip accessIp, existsIp d ip = .ok false ∧ d' = d.setItem name (hostOpts ip accessIp)

theorem AddsHost.hasIps {d d' : HostMap} (h : AddsHost d d') (hd : HasIps d) : HasIps d' := by
  rcases h with rfl | ⟨name, ip, accessIp, -, rfl⟩
  · exact hd
  · exact hd.setItem name rfl

theorem addAddress_cases (s : Settings) (st st' : Scan) (host : String)
    (h : addAddress s st host = .ok st') : AddsHost st.allHosts st'.allHosts := by
  have htail : ∀ (ip accessIp : String) (b : Scan), b.allHosts = st.allHosts →
      (if existsHostname b.allHosts host then .ok b
      else do
        let known ← existsIp b.allHosts ip
        if known then .ok b
        else if s.useRealHostname then do
          let nextHost ← s.realHostname accessIp
          .ok { b with allHosts := b.allHosts.setItem nextHost (hostOpts ip accessIp) }
        else .ok { b with
          allHosts := b.allHosts.setItem (s.hostPrefix ++ toString b.nextHostId) (hostOpts ip accessIp)
          nextHostId := b.nextHostId + 1 }) = Except.ok st' → AddsHost st.allHosts st'.allHosts := by
    intro ip accessIp b hb h
    split at h
    · obtain rfl := Except.ok.inj h
      exact .inl hb
    · obtain ⟨known, hknown, h⟩ := Runs.bind_eq_ok h
      split at h
      · obtain rfl := Except.ok.inj h
        exact .inl hb
      rename_i hnot
      rw [hb, Bool.eq_false_iff.mpr hnot] at hknown
      split at h
      · obtain ⟨nextHost, -, h⟩ := Runs.bind_eq_ok h
        obtain rfl := Except.ok.inj h
        exact .inr ⟨nextHost, ip, accessIp, hknown, by rw [← hb]⟩
      · obtain rfl := Except.ok.inj h
        exact .inr ⟨_, ip, accessIp, hknown, by rw [← hb]⟩
  rw [addAddress] at h
  split at h
  · split at h
    · rename_i ip accessIp _
      exact htail (String.ofList ip) (String.ofList accessIp)
        { st with ip := some (String.ofList ip), accessIp := some (String.ofList accessIp) } rfl h
    · cases h
  · exact htail host host { st with ip := some host, accessIp := some host } rfl h

theorem addNamed_cases (st st' : Scan) (host : String)
    (h : addNamed st host = .ok st') : AddsHost st.allHosts st'.allHosts := by
  have htail : ∀ b : Scan, b.allHosts = st.allHosts →
      (if existsHostname b.allHosts host then .ok b
      else do
        let ip ← readLocal "ip" b.ip
        let known ← existsIp b.allHosts ip
        if known then .ok b
        else do
          let accessIp ← readLocal "access_ip" b.accessIp
          let hostname ← readLocal "hostname" b.hostname
          .ok { b with allHosts := b.allHosts.setItem hostname (hostOpts ip accessIp) }) =
            Except.ok st' → AddsHost st.allHosts st'.allHosts := by
    intro b hb h
    split at h
    · obtain rfl := Except.ok.inj h
      exact .inl hb
    · obtain ⟨ip, -, h⟩ := Runs.bind_eq_ok h
      obtain ⟨known, hknown, h⟩ := Runs.bind_eq_ok h
      split at h
      · obtain rfl := Except.ok.inj h
        exact .inl hb
      · rename_i hnot
        rw [hb, Bool.eq_false_iff.mpr hnot] at hknown
        obtain ⟨accessIp, -, h⟩ := Runs.bind_eq_ok h
        obtain ⟨hostname, -, h⟩ := Runs.bind_eq_ok h
        obtain rfl := Except.ok.inj h
        exact .inr ⟨hostname, ip, accessIp, hknown, by rw [← hb]⟩
  rw [addNamed] at h
  split at h
  · split at h
    · rename_i hostname ip accessIp _
      exact htail { st with
        hostname := some (String.ofList hostname)
        ip := some (String.ofList ip)
        accessIp := some (String.ofList accessIp) } rfl h
    · rename_i hostname ip _
      exact htail { st with
        hostname := some (String.ofList hostname)
        ip := some (String.ofList ip)
        accessIp := some (String.ofList ip) } rfl h
    · cases h
  · exact htail st rfl h

/-- Whatever the argument, it takes hosts away or adds one. -/
theorem changeHost_edits (s : Settings) (st st' : Scan) (host : String)
    (hstep : changeHost s st host = .ok st') :
    (∃ name, st'.allHosts = st.allHosts.erase name) ∨ AddsHost st.allHosts st'.allHosts := by
  rw [changeHost] at hstep
  split at hstep
  · cases hstep
  split at hstep
  · -- a deletion
    rw [deleteHost] at hstep
    split at hstep
    · obtain rfl := Except.ok.inj hstep
      exact .inl ⟨_, rfl⟩
    · obtain ⟨known, -, hstep⟩ := Runs.bind_eq_ok hstep
      split at hstep
      · obtain ⟨hosts, hhosts, hstep⟩ := Runs.bind_eq_ok hstep
        obtain rfl := Except.ok.inj hstep
        rw [deleteHostByIp] at hhosts
        obtain ⟨name, -, hhosts⟩ := Runs.bind_eq_ok hhosts
        split at hhosts
        · obtain rfl := Except.ok.inj hhosts
          exact .inl ⟨_, rfl⟩
        · cases hhosts
      · obtain rfl := Except.ok.inj hstep
        exact .inr (.inl rfl)
  split at hstep
  · exact .inr (addAddress_cases s st st' host hstep)
  split at hstep
  · exact .inr (addNamed_cases st st' host hstep)
  · obtain rfl := Except.ok.inj hstep
    exact .inr (.inl rfl)

/-- Whatever the argument, the hosts keep having ips. -/
theorem changeHost_hasIps (s : Settings) (st st' : Scan) (host : String) (h : HasIps st.allHosts)
    (hstep : changeHost s st host = .ok st') : HasIps st'.allHosts := by
  cases changeHost_edits s st st' host hstep with
  | inl herase =>
    obtain ⟨name, hname⟩ := herase
    rw [hname]
    exact h.filterKeys _
  | inr hadds => exact hadds.hasIps h

theorem newHosts_hasIps (s : Settings) (a : AllGroup) (d hosts : HostMap) (hd : a.hosts = .mapping d)
    (h : HasIps d) (args : List String) (hnew : newHosts s a args = .ok hosts) : HasIps hosts := by
  obtain ⟨changed, -, hnew⟩ := Runs.bind_eq_ok hnew
  rw [buildHostnames, hd, existingHosts_mapping] at hnew
  obtain ⟨st, hst, hnew⟩ := Runs.bind_eq_ok hnew
  obtain rfl := Except.ok.inj hnew
  exact Runs.foldlM_rel (P := fun st st' : Scan => HasIps st.allHosts → HasIps st'.allHosts)
    (fun _ => id) (fun _ _ _ hst hst' => hst' ∘ hst) changed
    (fun host _ b b' hb hh => changeHost_hasIps s b b' host hh hb) hst (scannedHosts_hasIps _ h)

end Kubespray.Inventory

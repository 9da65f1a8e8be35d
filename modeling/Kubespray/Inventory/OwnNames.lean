import Kubespray.Inventory.Addresses

/-! Added hosts, by address or by name: when each of them gets a name of its own. -/
namespace Kubespray.Inventory

section Given
variable (s : Settings)

/-- The next number after the host is added. -/
def nextAfter {t : CharTables} (next : Nat) (h : HostAdd t) : Nat :=
  if h.name = none then next + 1 else next

/-- The names the added hosts are given, with their options, where the next number is `next`. -/
def given (next : Nat) : List (HostAdd s.tables) → List (String × Value)
  | [] => []
  | h :: l => (h.hostname s next, h.opts) :: given (nextAfter next h) l

def givenNames (next : Nat) (l : List (HostAdd s.tables)) : List String :=
  (given s next l).map Prod.fst

theorem givenNames_cons (next : Nat) (h : HostAdd s.tables) (l : List (HostAdd s.tables)) :
    givenNames s next (h :: l) = h.hostname s next :: givenNames s (nextAfter next h) l := rfl

theorem optIp_given (next : Nat) (l : List (HostAdd s.tables)) :
    (given s next l).map (fun e => optIp e.2) = l.map fun h => some h.ip := by
  induction l generalizing next with
  | nil => rfl
  | cons h l ih => exact congrArg (some h.ip :: ·) (ih _)

/-- Every added host is given some name, and a name that it came with. -/
theorem exists_given (next : Nat) {l : List (HostAdd s.tables)} {h : HostAdd s.tables} (hm : h ∈ l) :
    ∃ e ∈ given s next l, e.2 = h.opts ∧ ∀ n, h.name = some n → e.1 = n := by
  induction l generalizing next with
  | nil => cases hm
  | cons x l ih =>
    cases List.mem_cons.mp hm with
    | inl hx =>
      subst hx
      refine ⟨(h.hostname s next, h.opts), List.mem_cons_self, rfl, fun n hn => ?_⟩
      simp [HostAdd.hostname, hn]
    | inr hl =>
      obtain ⟨e, he, hopts, hname⟩ := ih (nextAfter next x) hl
      exact ⟨e, List.mem_cons_of_mem _ he, hopts, hname⟩

end Given

section Loop
variable (s : Settings)

/-- The names of the state and the names given are apart, and no argument is, as a text, one of
those that are there before it. -/
structure NamesApart (p : HostMap × Nat) (l : List (HostAdd s.tables)) : Prop where
  names : (p.1.keys ++ givenNames s p.2 l).Nodup
  texts : ∀ pre h post, l = pre ++ h :: post → h.text ∉ p.1.keys ++ givenNames s p.2 pre

theorem length_keys_addHost_le (p : HostMap × Nat) (h : HostAdd s.tables) :
    (addHost s p h).1.keys.length ≤ p.1.keys.length + 1 := by
  rw [addHost]
  split
  · omega
  · rw [OrderedDict.keys_setItem]
    by_cases hk : h.hostname s p.2 ∈ p.1.keys
    · rw [addKey_of_mem _ _ hk]
      omega
    · rw [addKey_of_not_mem _ _ hk]
      simp

/-- A host that is neither known nor given a name that is taken goes behind the others. -/
theorem addHost_fresh {p : HostMap × Nat} {h : HostAdd s.tables} (hskip : ¬ h.Skipped p.1)
    (hname : h.hostname s p.2 ∉ p.1.keys) :
    (addHost s p h).1.entries = p.1.entries ++ [(h.hostname s p.2, h.opts)] ∧
      (addHost s p h).2 = nextAfter p.2 h := by
  rw [addHost, if_neg hskip]
  exact ⟨OrderedDict.entries_setItem_of_not_mem _ _ _ hname, rfl⟩

theorem addHost_grows_iff (p : HostMap × Nat) (h : HostAdd s.tables) :
    (addHost s p h).1.keys.length = p.1.keys.length + 1 ↔
      ¬ h.Skipped p.1 ∧ h.hostname s p.2 ∉ p.1.keys := by
  rw [addHost]
  split
  case isTrue hskip =>
    exact ⟨fun hlen => by omega, fun hfresh => absurd hskip hfresh.1⟩
  case isFalse hskip =>
    rw [OrderedDict.keys_setItem]
    by_cases hk : h.hostname s p.2 ∈ p.1.keys
    · rw [addKey_of_mem _ _ hk]
      exact ⟨fun hlen => by omega, fun hfresh => absurd hk hfresh.2⟩
    · rw [addKey_of_not_mem _ _ hk]
      exact ⟨fun _ => ⟨hskip, hk⟩, fun _ => by simp⟩

theorem length_keys_addHosts_le (l : List (HostAdd s.tables)) (p : HostMap × Nat) :
    (l.foldl (addHost s) p).1.keys.length ≤ p.1.keys.length + l.length := by
  induction l generalizing p with
  | nil => simp
  | cons h l ih =>
    have hone := length_keys_addHost_le s p h
    have hrest := ih (addHost s p h)
    rw [List.foldl_cons, List.length_cons]
    omega

theorem keys_addHost_fresh {p : HostMap × Nat} {h : HostAdd s.tables} (hskip : ¬ h.Skipped p.1)
    (hname : h.hostname s p.2 ∉ p.1.keys) :
    (addHost s p h).1.keys = p.1.keys ++ [h.hostname s p.2] := by
  rw [OrderedDict.keys, (addHost_fresh s hskip hname).1, List.map_append]
  rfl

theorem namesApart_cons_iff {p : HostMap × Nat} {h : HostAdd s.tables} {l : List (HostAdd s.tables)}
    (hip : knowsIp p.1 h.ip = false) : NamesApart s p (h :: l) ↔
      (¬ h.Skipped p.1 ∧ h.hostname s p.2 ∉ p.1.keys) ∧ NamesApart s (addHost s p h) l := by
  have hskip : h.Skipped p.1 ↔ h.text ∈ p.1.keys := by simp [HostAdd.Skipped, hip]
  constructor
  · intro hapart
    have htext : ¬ h.Skipped p.1 := by
      have hfirst := hapart.texts [] h l rfl
      rwa [givenNames, given, List.map_nil, List.append_nil, ← hskip] at hfirst
    have hnames := hapart.names
    rw [givenNames_cons, List.append_cons] at hnames
    have hfresh : h.hostname s p.2 ∉ p.1.keys := by
      have hfirst := (List.nodup_append.mp hnames).1
      exact fun hm => (List.nodup_append.mp hfirst).2.2 _ hm _ (by simp) rfl
    have hkeys := keys_addHost_fresh s htext hfresh
    have hnext := (addHost_fresh s htext hfresh).2
    refine ⟨⟨htext, hfresh⟩, ?_, fun pre x post hl => ?_⟩
    · rw [hkeys, hnext]
      exact hnames
    · have hx := hapart.texts (h :: pre) x post (by rw [hl, List.cons_append])
      rw [hkeys, hnext, ← List.append_cons, ← givenNames_cons]
      exact hx
  · intro hall
    obtain ⟨⟨htext, hfresh⟩, hrest⟩ := hall
    have hkeys := keys_addHost_fresh s htext hfresh
    have hnext := (addHost_fresh s htext hfresh).2
    refine ⟨?_, fun pre x post hl => ?_⟩
    · have hnames := hrest.names
      rw [hkeys, hnext, ← List.append_cons] at hnames
      exact hnames
    · cases pre with
      | nil =>
        obtain ⟨rfl, -⟩ := List.cons.inj hl
        rw [givenNames, given, List.map_nil, List.append_nil, ← hskip]
        exact htext
      | cons y pre =>
        obtain ⟨rfl, hpost⟩ := List.cons.inj hl
        have hx := hrest.texts pre x post hpost
        rw [hkeys, hnext, ← List.append_cons] at hx
        exact hx

/-- What is assumed of the addresses of the arguments: none is known, and no two are equal. -/
structure NewIps (d : HostMap) (l : List (HostAdd s.tables)) : Prop where
  unknown : ∀ h ∈ l, knowsIp d h.ip = false
  nodup : (l.map HostAdd.ip).Nodup

theorem NewIps.after {p : HostMap × Nat} {h : HostAdd s.tables} {l : List (HostAdd s.tables)}
    (hnew : NewIps s p.1 (h :: l)) (hskip : ¬ h.Skipped p.1)
    (hname : h.hostname s p.2 ∉ p.1.keys) : NewIps s (addHost s p h).1 l := by
  obtain ⟨hne, hnd⟩ := List.nodup_cons.mp hnew.nodup
  refine ⟨fun x hx => ?_, hnd⟩
  have hxh : h.ip ≠ x.ip := fun he => hne (he ▸ List.mem_map_of_mem hx)
  have hunknown := hnew.unknown x (List.mem_cons_of_mem h hx)
  rw [knowsIp] at hunknown ⊢
  rw [(addHost_fresh s hskip hname).1, List.any_append, hunknown]
  simp [HostAdd.opts, hxh]

/-- All hosts are added exactly where the names are apart. -/
theorem length_keys_addHosts_iff (l : List (HostAdd s.tables)) (p : HostMap × Nat)
    (hnew : NewIps s p.1 l) :
    (l.foldl (addHost s) p).1.keys.length = p.1.keys.length + l.length ↔ NamesApart s p l := by
  induction l generalizing p with
  | nil =>
    refine ⟨fun _ => ⟨?_, fun pre h post hl => absurd hl (by simp)⟩, fun _ => rfl⟩
    simpa [givenNames, given] using p.1.keys_nodup
  | cons h l ih =>
    rw [namesApart_cons_iff s (hnew.unknown h (by simp)), List.foldl_cons, List.length_cons]
    have hone := length_keys_addHost_le s p h
    have hrest := length_keys_addHosts_le s l (addHost s p h)
    constructor
    · intro hlen
      have hfresh := (addHost_grows_iff s p h).mp (by omega)
      refine ⟨hfresh, (ih _ (hnew.after s hfresh.1 hfresh.2)).mp (by omega)⟩
    · intro hall
      have hgrows := (addHost_grows_iff s p h).mpr hall.1
      have hlater := (ih _ (hnew.after s hall.1.1 hall.1.2)).mpr hall.2
      omega

theorem entries_addHosts (l : List (HostAdd s.tables)) (p : HostMap × Nat) (hnew : NewIps s p.1 l)
    (hapart : NamesApart s p l) :
    (l.foldl (addHost s) p).1.entries = p.1.entries ++ given s p.2 l := by
  induction l generalizing p with
  | nil => exact (List.append_nil _).symm
  | cons h l ih =>
    obtain ⟨⟨hskip, hname⟩, hrest⟩ :=
      (namesApart_cons_iff s (hnew.unknown h (by simp))).mp hapart
    obtain ⟨hentries, hnext⟩ := addHost_fresh s hskip hname
    rw [List.foldl_cons, ih _ (hnew.after s hskip hname) hrest, hentries, hnext, given,
      ← List.append_cons]

end Loop

section Names
variable (s : Settings)

/-- Every argument adds a host, its ip belongs to that host alone, and a name it came with has
the ip. -/
structure AddsAll (a : AllGroup) (d : HostMap) (l : List (HostAdd s.tables)) (hosts : HostMap) :
    Prop where
  result : buildHostnames s a (l.map HostAdd.text) = .ok hosts
  count : hosts.keys.length = d.keys.length + l.length
  own : ∀ h ∈ l, ∃! name, ∃ v, hosts.lookup name = some v ∧ hasIp h.ip v = true
  named : ∀ h ∈ l, ∀ n, h.name = some n → ∃ v, hosts.lookup n = some v ∧ hasIp h.ip v = true

theorem scanStart_of_ids {d : HostMap} (h : ∀ e ∈ d.entries, ∃ id, getHostId s.tables e.1 = .ok id) :
    (scanStart s d).1 = d :=
  OrderedDict.ext_entries (scanned_of_ids s.tables d.entries h)

theorem eq_of_hasIp_given {next : Nat} {l : List (HostAdd s.tables)} (hnd : (l.map HostAdd.ip).Nodup)
    {e e' : String × Value} (he : e ∈ given s next l) (he' : e' ∈ given s next l) {ip : String}
    (h : hasIp ip e.2 = true) (h' : hasIp ip e'.2 = true) : e = e' := by
  have hmap : ((given s next l).map fun e => optIp e.2).Nodup := by
    have hsome : (l.map fun h => some h.ip) = (l.map HostAdd.ip).map some := List.map_map.symm
    rw [optIp_given, hsome]
    exact hnd.map (Option.some_injective _)
  refine List.inj_on_of_nodup_map hmap he he' ?_
  rw [(hasIp_iff _ _).mp h, (hasIp_iff _ _).mp h']

/-- With the given names behind those of the state, every argument's host is found by its ip. -/
theorem addsAll_of_entries {a : AllGroup} {d hosts : HostMap} {l : List (HostAdd s.tables)}
    {next : Nat} (hnew : NewIps s d l) (hbuild : buildHostnames s a (l.map HostAdd.text) = .ok hosts)
    (hcount : hosts.keys.length = d.keys.length + l.length)
    (hentries : hosts.entries = d.entries ++ given s next l) : AddsAll s a d l hosts := by
  have hmem : ∀ e : String × Value, hosts.lookup e.1 = some e.2 ↔
      e ∈ d.entries ∨ e ∈ given s next l := by
    intro e
    rw [OrderedDict.lookup_eq_some_iff, hentries, List.mem_append]
  have hin : ∀ h ∈ l, ∀ e : String × Value, hosts.lookup e.1 = some e.2 → hasIp h.ip e.2 = true →
      e ∈ given s next l := by
    intro h hm e he hhas
    refine ((hmem e).mp he).resolve_left fun hold => ?_
    have hunknown := hnew.unknown h hm
    rw [knowsIp, List.any_eq_false] at hunknown
    exact hunknown e hold hhas
  refine ⟨hbuild, hcount, fun h hm => ?_, fun h hm n hn => ?_⟩
  · obtain ⟨e, he, hopts, -⟩ := exists_given s next hm
    have hhas : hasIp h.ip e.2 = true := by simp [hopts, HostAdd.opts]
    refine ⟨e.1, ⟨e.2, (hmem e).mpr (.inr he), hhas⟩, fun name hname => ?_⟩
    obtain ⟨v, hv, hhas'⟩ := hname
    have heq := eq_of_hasIp_given s hnew.nodup (hin h hm (name, v) hv hhas') he hhas' hhas
    exact congrArg Prod.fst heq
  · obtain ⟨e, he, hopts, hname⟩ := exists_given s next hm
    refine ⟨e.2, ?_, by simp [hopts, HostAdd.opts]⟩
    rw [← hname n hn]
    exact (hmem e).mpr (.inr he)

/-- Every added host gets a name of its own exactly where the names given are apart from those
of the state and from one another, and no argument is the name of a host that is there. -/
theorem addsAll_iff (hs : s.useRealHostname = false) (a : AllGroup) (d : HostMap)
    (hd : a.hosts = .mapping d) (hips : IpsReadable d)
    (hids : ∀ e ∈ d.entries, ∃ id, getHostId s.tables e.1 = .ok id)
    (l : List (HostAdd s.tables)) (hnew : NewIps s d l) :
    (∃ hosts, AddsAll s a d l hosts) ↔ NamesApart s (d, highestId s.tables d.entries 0 + 1) l := by
  have hstart : scanStart s d = (d, highestId s.tables d.entries 0 + 1) :=
    Prod.ext (scanStart_of_ids s hids) rfl
  have hbuild : buildHostnames s a (l.map HostAdd.text) =
      .ok (l.foldl (addHost s) (d, highestId s.tables d.entries 0 + 1)).1 := by
    have hforms := buildHostnames_forms hs a d hd hips (l.map HostForm.add)
    rw [List.map_map, List.foldl_map, hstart] at hforms
    exact hforms
  rw [← length_keys_addHosts_iff s l (d, highestId s.tables d.entries 0 + 1) hnew]
  constructor
  · intro h
    obtain ⟨hosts, hall⟩ := h
    obtain rfl := Except.ok.inj (hbuild.symm.trans hall.result)
    exact hall.count
  · intro hcount
    have hapart := (length_keys_addHosts_iff s l _ hnew).mp hcount
    exact ⟨_, addsAll_of_entries s hnew hbuild hcount (entries_addHosts s l _ hnew hapart)⟩

/-- An address, and a host named as the first generated one is. -/
def addressThenNode1 : List (HostAdd CharTables.ascii) :=
  [AddressArg.toAdd _ ⟨.ofOctets 10 0 0 1, none⟩,
    { name := some "node1"
      ip := "10.0.0.2"
      accessIp := none
      noComma := by decide
      named := by
        rintro n ⟨rfl⟩
        exact ⟨'n', "ode1".toList, by decide, by decide, by decide⟩
      address := fun h => (nomatch h)
      noRange := fun h => (nomatch h) }]

theorem addressThenNode1_newIps : NewIps {} ∅ addressThenNode1 :=
  ⟨fun _ _ => rfl, by decide⟩

theorem addressThenNode1_addsAll_iff :
    (∃ hosts, AddsAll {} initial ∅ addressThenNode1 hosts) ↔
      NamesApart {} (∅, highestId CharTables.ascii (∅ : HostMap).entries 0 + 1) addressThenNode1 :=
  addsAll_iff {} rfl initial ∅ rfl (fun _ he => (nomatch he)) (fun _ he => (nomatch he))
    addressThenNode1 addressThenNode1_newIps

/-- The second host takes the name of the first. -/
theorem node1_overwritten : ¬ ∃ hosts, AddsAll {} initial ∅ addressThenNode1 hosts := by
  intro h
  obtain ⟨hosts, hall⟩ := h
  have hlen : (buildHostnames {} initial (addressThenNode1.map HostAdd.text)).toOption.map
      (fun hosts => hosts.keys.length) = some 1 := by decide +kernel
  rw [hall.result] at hlen
  have hone : hosts.keys.length = 1 := Option.some.inj hlen
  rw [hall.count] at hone
  cases hone

end Names
end Kubespray.Inventory

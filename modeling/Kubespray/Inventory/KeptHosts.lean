import Kubespray.Inventory.Addresses
import Kubespray.Inventory.Purge

/-! Which of the stored hosts build_hostnames keeps, for arguments of the documented forms. -/
namespace Kubespray.Inventory

section Loop
variable {s : Settings}

/-- An argument of the loop adds a host under the name, with the options. -/
def AddsUnder (s : Settings) (name : String) (p : HostMap × Nat) (f : HostForm s.tables)
    (opts : Value) : Prop := f.added s p = some (name, opts)

theorem change_of_added {p : HostMap × Nat} {f : HostForm s.tables} {e : String × Value}
    (h : f.added s p = some e) : (f.change s p).1 = p.1.setItem e.1 e.2 := by
  cases f with
  | delete target => cases h
  | add x =>
    rw [HostForm.added] at h
    split at h
    · cases h
    case isFalse hskip =>
      obtain rfl := Option.some.inj h
      rw [HostForm.change, addHost, if_neg hskip]

/-- Where nothing is added under the name, the host stands or is deleted. -/
theorem lookup_change {p : HostMap × Nat} {f : HostForm s.tables} {name : String}
    (h : ∀ v, ¬ AddsUnder s name p f v) : (f.change s p).1.lookup name = p.1.lookup name ∨
      ∃ target, f = .delete target ∧ (f.change s p).1.lookup name = none ∧
        ∀ v, p.1.lookup name = some v → target = name ∨ hasIp target v = true := by
  cases f with
  | add x =>
    left
    rw [HostForm.change, addHost]
    split
    · rfl
    case isFalse hskip =>
      have hne : x.hostname s p.2 ≠ name := by
        intro he
        refine h x.opts ?_
        rw [AddsUnder, HostForm.added, if_neg hskip, he]
      simp [Ne.symm hne]
  | delete target =>
    have herase : ∀ k : String, (p.1.erase k).lookup name = p.1.lookup name ∨
        k = name ∧ (p.1.erase k).lookup name = none := by
      intro k
      rw [OrderedDict.erase, OrderedDict.lookup_filterKeys]
      by_cases hk : k = name
      · exact .inr ⟨hk, by simp [hk]⟩
      · exact .inl (by simp [Ne.symm hk])
    simp only [HostForm.change, deleteTarget]
    split
    · cases herase target with
      | inl hkeep => exact .inl hkeep
      | inr hgone => exact .inr ⟨target, rfl, hgone.2, fun v _ => .inl hgone.1⟩
    split
    case h_1 e hfind =>
      cases herase e.1 with
      | inl hkeep => exact .inl hkeep
      | inr hgone =>
        refine .inr ⟨target, rfl, hgone.2, fun v hv => .inr ?_⟩
        have he : p.1.lookup e.1 = some e.2 :=
          (p.1.lookup_eq_some_iff e.1 e.2).mpr (List.mem_of_find?_eq_some hfind)
        rw [hgone.1, hv] at he
        rw [Option.some.inj he]
        exact List.find?_some (p := fun e : String × Value => hasIp target e.2) hfind
    case h_2 => exact .inl rfl

/-- A deletion among the arguments names the host, by its name or by its ip. -/
def NamedForDeletion (l : List (HostForm s.tables)) (e : String × Value) : Prop :=
  ∃ target, HostForm.delete target ∈ l ∧ (target = e.1 ∨ hasIp target e.2 = true)

theorem lookup_loop_iff {l : List (HostForm s.tables)} {e : String × Value}
    (h : ¬ NamedForDeletion l e) (p : HostMap × Nat) :
    (l.foldl (HostForm.change s) p).1.lookup e.1 = some e.2 ↔
      (p.1.lookup e.1 = some e.2 ∧
        Runs.Unwritten (HostForm.change s) (AddsUnder s e.1) p l) ∨
      ∃ pre f post, l = pre ++ f :: post ∧
        AddsUnder s e.1 (pre.foldl (HostForm.change s) p) f e.2 ∧
        Runs.Unwritten (HostForm.change s) (AddsUnder s e.1)
          (f.change s (pre.foldl (HostForm.change s) p)) post := by
  refine Runs.foldl_eq_some_iff (fun p : HostMap × Nat => p.1.lookup e.1)
    (fun p f v hadds => ?_) l (fun f hf p hno => ?_) p
  · rw [change_of_added hadds]
    simp
  · cases lookup_change hno with
    | inl hkeep => rw [hkeep]
    | inr hgone =>
      obtain ⟨target, rfl, hnone, htarget⟩ := hgone
      rw [hnone]
      have hsome : p.1.lookup e.1 ≠ some e.2 := fun hsome => h ⟨target, hf, htarget e.2 hsome⟩
      simp [hsome]

end Loop

section Copy

/-- The scan comes to the host: every name before it ends its first label in an integer. -/
def Copied (t : CharTables) (d : HostMap) (e : String × Value) : Prop :=
  ∃ pre post, d.entries = pre ++ e :: post ∧ ∀ x ∈ pre, ∃ id, getHostId t x.1 = .ok id

theorem mem_scanned_iff (t : CharTables) (l : List (String × Value)) (e : String × Value) :
    e ∈ scanned t l ↔
      ∃ pre post, l = pre ++ e :: post ∧ ∀ x ∈ pre, ∃ id, getHostId t x.1 = .ok id := by
  induction l with
  | nil => simp [scanned]
  | cons x l ih =>
    have hsplit : (∃ pre post, x :: l = pre ++ e :: post ∧ ∀ y ∈ pre, ∃ id, getHostId t y.1 = .ok id) ↔
        e = x ∨ (∃ id, getHostId t x.1 = .ok id) ∧ e ∈ scanned t l := by
      rw [ih]
      constructor
      · intro h
        obtain ⟨pre, post, hl, hids⟩ := h
        cases pre with
        | nil => exact .inl (List.cons.inj hl).1.symm
        | cons y pre =>
          obtain ⟨rfl, hrest⟩ := List.cons.inj hl
          exact .inr ⟨hids x (by simp), pre, post, hrest, fun z hz => hids z (by simp [hz])⟩
      · intro h
        cases h with
        | inl he => exact ⟨[], l, by rw [he, List.nil_append], by simp⟩
        | inr hlater =>
          obtain ⟨hx, pre, post, hl, hids⟩ := hlater
          exact ⟨x :: pre, post, by rw [hl, List.cons_append], List.forall_mem_cons.mpr ⟨hx, hids⟩⟩
    rw [hsplit, scanned]
    cases hx : getHostId t x.1 with
    | error err => simp
    | ok id => simp

theorem lookup_scanned_iff (t : CharTables) (d : HostMap) (e : String × Value) :
    (scannedHosts t d).lookup e.1 = some e.2 ↔ Copied t d e := by
  rw [OrderedDict.lookup_eq_some_iff]
  exact mem_scanned_iff t d.entries e

end Copy

section Kept
variable (s : Settings)

/-- The loop over the arguments keeps the host: the scan copies it or an argument puts the very
pair back, and from there on no argument adds a host under its name. -/
def Stands (d : HostMap) (l : List (HostForm s.tables)) (e : String × Value) : Prop :=
  (Copied s.tables d e ∧
    Runs.Unwritten (HostForm.change s) (AddsUnder s e.1) (scanStart s d) l) ∨
  ∃ pre f post, l = pre ++ f :: post ∧
    AddsUnder s e.1 (pre.foldl (HostForm.change s) (scanStart s d)) f e.2 ∧
    Runs.Unwritten (HostForm.change s) (AddsUnder s e.1)
      (f.change s (pre.foldl (HostForm.change s) (scanStart s d))) post

theorem le_next_change (p : HostMap × Nat) (f : HostForm s.tables) : p.2 ≤ (f.change s p).2 := by
  cases f with
  | delete target => exact Nat.le_refl _
  | add x =>
    rw [HostForm.change, addHost]
    split
    · exact Nat.le_refl _
    · simp only
      split <;> omega

/-- Nothing is added under a name that no argument gives and no number from the next on makes. -/
theorem unwritten_of_names {name : String} {l : List (HostForm s.tables)} {p : HostMap × Nat}
    (hgiven : ∀ x, HostForm.add x ∈ l → x.name ≠ some name)
    (hmade : ∀ k, p.2 ≤ k → hostName s k ≠ name) :
    Runs.Unwritten (HostForm.change s) (AddsUnder s name) p l := by
  induction l generalizing p with
  | nil => trivial
  | cons f l ih =>
    refine ⟨fun v hadds => ?_, ih (fun x hx => hgiven x (List.mem_cons_of_mem f hx)) fun k hk =>
      hmade k (Nat.le_trans (le_next_change s p f) hk)⟩
    cases f with
    | delete target => cases hadds
    | add x =>
      rw [AddsUnder, HostForm.added] at hadds
      split at hadds
      · cases hadds
      · obtain ⟨hname, -⟩ := Prod.mk.inj (Option.some.inj hadds)
        cases hx : x.name with
        | none =>
          rw [HostAdd.hostname, hx] at hname
          exact hmade p.2 (Nat.le_refl _) hname
        | some n =>
          rw [HostAdd.hostname, hx] at hname
          exact hgiven x (by simp) (hx.trans (congrArg some hname))

/-- With a prefix without dots, a copied host stands unless an argument gives its very name. -/
theorem stands_of_names (hdot : '.' ∉ s.hostPrefix.toList) {d : HostMap}
    {l : List (HostForm s.tables)} {e : String × Value} (hcopied : Copied s.tables d e)
    (hgiven : ∀ x, HostForm.add x ∈ l → x.name ≠ some e.1) : Stands s d l e := by
  refine .inl ⟨hcopied, unwritten_of_names s hgiven fun k hk hname => ?_⟩
  apply hostName_not_mem_scanned s.tables s hdot d k hk
  rw [hname, OrderedDict.mem_keys_iff]
  exact ⟨e.2, (lookup_scanned_iff s.tables d e).mpr hcopied⟩

/-- The host is in the result with its options, and in all.hosts after the run. -/
def KeepsHost (a : AllGroup) (l : List (HostForm s.tables)) (e : String × Value) : Prop :=
  (∃ hosts, buildHostnames s a (l.map HostForm.text) = .ok hosts ∧ hosts.lookup e.1 = some e.2) ∧
    ∀ a', build s (.dict (some a)) (l.map HostForm.text) = .ok a' →
      ∃ d', a'.hosts = .mapping d' ∧ d'.lookup e.1 = some e.2

theorem build_hosts {a a' : AllGroup} {d : HostMap} (hd : a.hosts = .mapping d) {args : List String}
    (h : build s (.dict (some a)) args = .ok a') :
    ∃ hosts, newHosts s a args = .ok hosts ∧ a'.hosts = .mapping (allHostsAfter hosts d) := by
  obtain ⟨b, hb, hhosts, -, -⟩ := ensureRequiredGroups_effect roles a
  rw [build, hb, Except.bind_ok, YamlConfig.getAll, Except.bind_ok, newHosts_congr s hhosts] at h
  obtain ⟨hosts, hnew, h⟩ := Runs.bind_eq_ok h
  exact ⟨hosts, hnew, assignHosts_hosts (hhosts.trans hd) h⟩

/-- A stored host that no deletion names is kept exactly where it stands in the loop. -/
theorem keepsHosts_iff (hs : s.useRealHostname = false) (a : AllGroup) (d : HostMap)
    (hd : a.hosts = .mapping d) (hips : IpsReadable d) (l : List (HostForm s.tables)) :
    (∀ e ∈ d.entries, ¬ NamedForDeletion l e → KeepsHost s a l e) ↔
      ∀ e ∈ d.entries, ¬ NamedForDeletion l e → Stands s d l e := by
  refine forall₂_congr fun e _ => imp_congr_right fun hnot => ?_
  have hbuild := buildHostnames_forms hs a d hd hips l
  have hlookup : (l.foldl (HostForm.change s) (scanStart s d)).1.lookup e.1 = some e.2 ↔
      Stands s d l e := by
    rw [lookup_loop_iff hnot, Stands, scanStart, lookup_scanned_iff]
  rw [← hlookup]
  constructor
  · intro h
    obtain ⟨⟨hosts, hhosts, hkept⟩, -⟩ := h
    obtain rfl := Except.ok.inj (hbuild.symm.trans hhosts)
    exact hkept
  · intro h
    refine ⟨⟨_, hbuild, h⟩, fun a' ha' => ?_⟩
    obtain ⟨hosts, hnew, hall⟩ := build_hosts s hd ha'
    rw [newHosts_forms hs a d hd hips] at hnew
    obtain rfl := Except.ok.inj hnew
    refine ⟨_, hall, ?_⟩
    rw [allHostsAfter, OrderedDict.lookup_setAll_entries, h, Option.some_or]

/-- Two hosts that are named in words, with their addresses. -/
def firstSecond : HostMap :=
  ((∅ : HostMap).setItem "first" (hostOpts "10.0.0.1" "10.0.0.1")).setItem "second"
    (hostOpts "10.0.0.2" "10.0.0.2")

def storedFirstSecond : AllGroup := { initial with hosts := .mapping firstSecond }

def addThird : List (HostForm CharTables.ascii) := [.add (AddressArg.toAdd _ ⟨.ofOctets 10 0 0 3, none⟩)]

theorem firstSecond_readable : IpsReadable firstSecond := by
  have hnone : IpsReadable (∅ : HostMap) := fun e he => (nomatch he)
  exact (hnone.setItem _ ⟨_, rfl⟩).setItem _ ⟨_, rfl⟩

theorem firstSecond_keepsHosts_iff :
    (∀ e ∈ firstSecond.entries, ¬ NamedForDeletion (s := {}) addThird e →
      KeepsHost {} storedFirstSecond addThird e) ↔
      ∀ e ∈ firstSecond.entries, ¬ NamedForDeletion (s := {}) addThird e →
        Stands {} firstSecond addThird e :=
  keepsHosts_iff {} rfl storedFirstSecond firstSecond rfl firstSecond_readable addThird

/-- The scan ends at the first name, and the second host is gone. -/
theorem second_host_lost : ¬ ∀ e ∈ firstSecond.entries,
    ¬ NamedForDeletion (s := {}) addThird e → KeepsHost {} storedFirstSecond addThird e := by
  intro h
  have hmem : ("second", hostOpts "10.0.0.2" "10.0.0.2") ∈ firstSecond.entries :=
    List.mem_cons_of_mem _ (List.mem_singleton_self _)
  have hnot : ¬ NamedForDeletion (s := {}) addThird ("second", hostOpts "10.0.0.2" "10.0.0.2") := by
    intro hnamed
    obtain ⟨target, htarget, -⟩ := hnamed
    cases List.mem_singleton.mp htarget
  obtain ⟨⟨hosts, hhosts, hkept⟩, -⟩ := h _ hmem hnot
  have hkeys : (buildHostnames {} storedFirstSecond (addThird.map HostForm.text)).toOption.map
      (fun hosts => decide ("second" ∈ hosts.keys)) = some false := by decide +kernel
  rw [hhosts] at hkeys
  have hin : "second" ∈ hosts.keys := (hosts.mem_keys_iff _).mpr ⟨_, hkept⟩
  simp [Except.toOption, hin] at hkeys

end Kept
end Kubespray.Inventory

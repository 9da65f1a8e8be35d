import Kubespray.RemoveNode.Play

/-! What remove-node.yml does to the hosts it removes: none goes with its pods on it or as a member of
etcd, and several that go together against one after the other. -/
namespace Kubespray.RemoveNode
open Etcd Playbook

section Safety
variable {p : Removal} {w : World} {h : Host IPv4} {nodes : List String} {ms : List Member} {s : State}

/-- What is not to happen to a host between two states: it is taken out of the cluster with its pods
on it, or reset as a member of etcd. -/
structure Safe (p : Removal) (s s' : State) (h : Host IPv4) : Prop where
  drained : h ∈ s'.wiped ∨ p.nodeName h ∉ s'.nodes → p.nodeName h ∈ s.nodes →
    p.nodeName h ∈ s'.drained
  left : h ∈ s'.wiped → p.inEtcd h = true → h.etcdAccessAddress ∉ peerHosts s'.members

/-- The node of a host is one of those that have to be drained, and its member is the one that is
found by its address. -/
structure Guarded (p : Removal) (nodes : List String) (ms : List Member) (h : Host IPv4) : Prop where
  named : p.nodeName h ∈ nodes →
    p.allowUngracefulRemoval = false ∧ p.nodeName h ∈ p.items.map p.itemName
  found : p.resetNodes = true → p.inEtcd h = true → ∀ m ∈ ms,
    m.peerURL.host = h.etcdAccessAddress → FoundAlone h (p.removeNodeIp h) ms m

theorem safe_of_drains (hd : Drains p (start nodes ms) s) (h : Host IPv4) :
    Safe p (start nodes ms) s h := by
  have hwiped : h ∉ s.wiped := by simp [hd.wiped, start]
  refine ⟨fun hgone hnode => ?_, fun hw => absurd hw hwiped⟩
  rw [hd.nodes] at hgone
  exact absurd hnode (hgone.resolve_left hwiped)

/-- The member of a host that was found alone is gone where the host goes on. -/
theorem not_mem_of_left (hw : w.Answered) (hms : Sound ms) (hetcd : p.inEtcd h = true)
    (hfound : ∀ m ∈ ms, m.peerURL.host = h.etcdAccessAddress → FoundAlone h (p.removeNodeIp h) ms m)
    (hh : h ∈ (removeEtcdNodes p w ms).2) :
    h.etcdAccessAddress ∉ peerHosts (removeEtcdNodes p w ms).1 := by
  intro hin
  obtain ⟨m, hm, haddress⟩ := List.mem_map.mp hin
  have hmem := removeMembers_subset _ _ hm
  have hid := (etcdMemberId_eq_iff hw hms hetcd hmem).mpr (hfound m hmem haddress)
  exact ((removeMembers_left hh).2 _ hid).2 m hm rfl

theorem safe_of_guarded (hms : Sound ms) (hguarded : ∀ x ∈ p.hosts, p.Passes ms x → Guarded p nodes ms x)
    (hw : w.Answered) (h : Host IPv4) : Safe p (start nodes ms) (run p w (start nodes ms)) h := by
  have hd := preRemove_drains (p := p) (w := w) (start nodes ms)
  rw [run]
  cases he : preRemove p w (start nodes ms) with
  | failed s =>
    rw [he] at hd
    exact safe_of_drains hd h
  | aborted s =>
    rw [he] at hd
    exact safe_of_drains hd h
  | completed s =>
    rw [he, Ended.state_completed] at hd
    have hmembers : s.members = ms := hd.members
    have hwiped : h ∉ s.wiped := by simp [hd.wiped, start]
    have hdrained : ∀ x ∈ (removeEtcdNodes p w ms).2, p.nodeName x ∈ nodes →
        p.nodeName x ∈ s.drained := by
      intro x hx hnode
      obtain ⟨hmem, hpasses⟩ := passes_of_left hw hx
      obtain ⟨hallow, hnamed⟩ := (hguarded x hmem hpasses).named hnode
      exact drained_of_preRemove hallow he hnode hnamed
    constructor
    · intro hgone hnode
      rw [mem_wiped_leave, or_iff_right hwiped, not_mem_nodes_leave s (hd.nodes.symm ▸ hnode),
        hmembers] at hgone
      obtain hwipes | ⟨x, hx, -, hname⟩ := hgone
      · exact hdrained h hwipes.2 hnode
      · exact hname ▸ hdrained x hx (hname.symm ▸ hnode)
    · intro hwipes hetcd
      rw [mem_wiped_leave, or_iff_right hwiped, hmembers] at hwipes
      obtain ⟨hmem, hpasses⟩ := passes_of_left hw hwipes.2
      rw [leave_members, hmembers]
      exact not_mem_of_left hw hms hetcd ((hguarded h hmem hpasses).found hwipes.1 hetcd) hwipes.2

/-- A run in which nothing fails, but for the drains, and that only `h` goes through. -/
def alone (h : Host IPv4) (drains : Bool) : World where
  prepare := .ok
  drain := fun _ => [drains]
  reach := fun x => x = h
  lookup := fun _ => true
  memberRemove := fun _ => true
  reset := fun _ => true
  delete := fun _ => true

theorem drainItem_alone {drains : Bool} (hok : drains = true ∨ p.allowUngracefulRemoval = true)
    (item : String) (s : State) :
    drainItem p (alone h drains) item s = .completed (drainItem p (alone h drains) item s).state := by
  refine (Ended.isCompleted_iff _).mp ?_
  rw [drainItem, only]
  split
  · rw [alone, List.take_of_length_le (by simp), List.map_singleton, retry, drainAttempt]
    cases drains with
    | true => rfl
    | false =>
      rw [hok.resolve_left (by decide)]
      rfl
  · rfl

theorem preRemove_alone {drains : Bool} (hok : drains = true ∨ p.allowUngracefulRemoval = true)
    (s : State) : ∃ s', preRemove p (alone h drains) s = .completed s' := by
  refine ⟨_, (Ended.isCompleted_iff _).mp ?_⟩
  rw [preRemove, inOrder, show noEffect (alone h drains).prepare s = .completed s from rfl,
    Ended.andThen, inOrder, eachItem_of_completed (f := fun t s => (t s).state)]
  · rfl
  · intro t ht s
    obtain ⟨item, -, rfl⟩ := List.mem_map.mp ht
    exact drainItem_alone hok item s

theorem drained_alone (s : State) : (preRemove p (alone h false) s).state.drained = s.drained := by
  have hrefl : ∀ s : State, s.drained = s.drained := fun _ => rfl
  have htrans : ∀ s t u : State, t.drained = s.drained → u.drained = t.drained →
      u.drained = s.drained := fun _ _ _ hst htu => htu.trans hst
  refine inOrder_rel (R := fun s t : State => t.drained = s.drained) hrefl htrans (fun t ht s => ?_) s
  simp only [List.mem_cons, List.not_mem_nil, or_false] at ht
  obtain rfl | rfl := ht
  · rfl
  · refine eachItem_rel (R := fun s t : State => t.drained = s.drained) hrefl htrans (fun t ht s => ?_) s
    obtain ⟨item, -, rfl⟩ := List.mem_map.mp ht
    rw [drainItem, only]
    split
    · refine retry_rel (R := fun s t : State => t.drained = s.drained) hrefl htrans (fun t ht s => ?_) s
      obtain ⟨ok, hok, rfl⟩ := List.mem_map.mp ht
      obtain rfl : ok = false := List.mem_singleton.mp (List.mem_of_mem_take hok)
      rw [drainAttempt]
      cases p.allowUngracefulRemoval <;> rfl
    · rfl

theorem reached_alone (hh : h ∈ p.hosts) (hpasses : p.Passes ms h) (drains : Bool) :
    p.reached (alone h drains) = [h] := by
  have hip : p.hasNodeIp h = true := by
    rw [Removal.hasNodeIp]
    cases hetcd : p.inEtcd h with
    | false => rfl
    | true =>
      obtain ⟨a, ha, -⟩ := hpasses hetcd
      rw [ha]
      rfl
  have hnodup : (p.reached (alone h drains)).Nodup := p.hosts_nodup.filter _
  refine List.perm_singleton.mp ((List.perm_ext_iff_of_nodup hnodup (List.nodup_singleton h)).mpr
    fun x => ?_)
  rw [mem_reached, List.mem_singleton, alone, decide_eq_true_iff]
  constructor
  · exact fun hx => hx.2.1
  · rintro rfl
    exact ⟨hh, rfl, hip⟩

theorem left_alone (hh : h ∈ p.hosts) (hpasses : p.Passes ms h) (drains : Bool) :
    h ∈ (removeEtcdNodes p (alone h drains) ms).2 := by
  rw [removeEtcdNodes, reached_alone hh hpasses, removeMembers]
  cases hetcd : p.inEtcd h with
  | false => simp [Removal.etcdMemberId, hetcd]
  | true =>
    obtain ⟨a, ha, hlen⟩ := hpasses hetcd
    rw [etcdMemberId_of_answered (fun _ => rfl) hetcd, ha, Option.bind_some]
    cases hf : found ms a with
    | nil =>
      rw [removeEtcdMember_of_found_nil ms a hf]
      exact List.mem_singleton_self h
    | cons n l =>
      obtain rfl : l = [] := by simpa [hf] using hlen
      have hn : n ∈ ms := by
        have hin : n ∈ found ms a := by simp [hf]
        exact (List.mem_filter.mp hin).1
      rw [removeEtcdMember_of_found_one ms a n hf]
      dsimp only
      rw [if_pos (by simpa [alone] using ⟨n, hn, rfl⟩)]
      exact List.mem_singleton_self h

theorem gone_alone {s : State} {drains : Bool}
    (hleft : h ∈ (removeEtcdNodes p (alone h drains) s.members).2) :
    p.nodeName h ∉ (leave p (alone h drains) s).nodes := by
  rw [leave, List.mem_filter]
  refine fun hn => absurd hn.2 ?_
  simp only [Bool.not_eq_true', List.contains_eq_mem, decide_eq_false_iff_not, not_not]
  exact List.mem_map_of_mem (List.mem_filter.mpr ⟨hleft, by simp [Removal.deletes, alone]⟩)

/-- Whatever fails but the lookups in etcd, no host goes before its pods and its member have, exactly
where each that can come past the removal of its member has its node drained by name, and its member
found. -/
theorem safe_iff (hms : Sound ms) (nodes : List String) :
    (∀ w : World, w.Answered → ∀ h ∈ p.hosts,
        Safe p (start nodes ms) (run p w (start nodes ms)) h) ↔
      ∀ h ∈ p.hosts, p.Passes ms h → Guarded p nodes ms h := by
  constructor
  · intro hsafe h hh hpasses
    have hgoes : ∀ drains, (drains = true ∨ p.allowUngracefulRemoval = true) →
        ∃ s, preRemove p (alone h drains) (start nodes ms) = .completed s ∧ s.members = ms ∧
          Safe p (start nodes ms) (leave p (alone h drains) s) h := by
      intro drains hok
      obtain ⟨s, hs⟩ := preRemove_alone (h := h) hok (start nodes ms)
      have hd := preRemove_drains (p := p) (w := alone h drains) (start nodes ms)
      have hrun := hsafe (alone h drains) (fun _ => rfl) h hh
      rw [hs] at hd
      rw [run, hs] at hrun
      exact ⟨s, hs, hd.members, hrun⟩
    have hleft := left_alone hh hpasses
    constructor
    · intro hnode
      have hallow : p.allowUngracefulRemoval = false := by
        by_contra hallowed
        obtain ⟨s, hs, hmembers, hrun⟩ := hgoes false (.inr (by simpa using hallowed))
        have hdrained := hrun.drained (.inr (gone_alone (hmembers.symm ▸ hleft false))) hnode
        have hnone := drained_alone (p := p) (h := h) (start nodes ms)
        rw [hs] at hnone
        rw [leave] at hdrained
        simp [show s.drained = [] from hnone] at hdrained
      obtain ⟨s, hs, hmembers, hrun⟩ := hgoes true (.inl rfl)
      have hdrained := hrun.drained (.inr (gone_alone (hmembers.symm ▸ hleft true))) hnode
      have hd := preRemove_drains (p := p) (w := alone h true) (start nodes ms)
      rw [hs] at hd
      exact ⟨hallow, (hd.named _ hdrained).resolve_left (by simp [start])⟩
    · intro hreset hetcd m hm haddress
      by_contra halone
      obtain ⟨s, hs, hmembers, hrun⟩ := hgoes true (.inl rfl)
      have hwiped : h ∈ (leave p (alone h true) s).wiped :=
        (mem_wiped_leave s).mpr (.inr ⟨hreset, hmembers.symm ▸ hleft true⟩)
      refine hrun.left hwiped hetcd ?_
      rw [leave_members, hmembers, ← haddress]
      refine List.mem_map_of_mem ((mem_removeMembers (fun _ => rfl) _ _ m).mpr ⟨hm, fun x hx => ?_⟩)
      obtain rfl : x = h := by simpa [reached_alone hh hpasses] using hx
      exact mt (etcdMemberId_eq_iff (fun _ => rfl) hms hetcd hm).mp halone
  · intro hguarded w hw h _
    exact safe_of_guarded hms hguarded hw h

def etcdNode (name : String) (ip : IPv4) : Host IPv4 :=
  ⟨name, some ip, none, none, none, ip⟩

def startedMember (i : Nat) (id : MemberId) (ip : IPv4) : Member :=
  ⟨id, "started", indexName i, ⟨ip, 2380⟩, some ⟨ip, 2379⟩, false⟩

def member1 : Member := startedMember 0 ⟨"6e3bd23ae5f1eae0", by decide, by decide⟩ (.ofOctets 10 0 0 10)

/-- With the blank behind the comma, node2 is among the hosts but its name is not among the items. -/
def spaced : Removal where
  node := "node1, node2"
  hosts := [etcdNode "node1" (.ofOctets 10 0 0 10), etcdNode "node2" (.ofOctets 10 0 0 20)]
  hosts_nodup := by decide
  etcd := ["node1"]
  hostvarsOverride := fun _ => none
  nodeName := Host.inventoryHostname
  removeNodeIp := fun _ => none
  allowUngracefulRemoval := false
  drainRetries := 3
  resetNodes := true

theorem spaced_not_safe : ¬ ∀ w : World, w.Answered → ∀ h ∈ spaced.hosts,
    Safe spaced (start ["node1", "node2"] [member1])
      (run spaced w (start ["node1", "node2"] [member1])) h := by
  rw [safe_iff ⟨by decide, by decide, by decide⟩]
  intro hall
  have hguarded := hall (etcdNode "node2" (.ofOctets 10 0 0 20)) (by decide) fun hetcd =>
    absurd hetcd (by decide)
  exact absurd (hguarded.named (by decide)).2 (by decide)

end Safety

section Together
variable {p : Removal} {w : World} {ms : List Member}

/-- The hosts of etcd that are removed in one run. -/
def Removal.leaving (p : Removal) (w : World) : List (Host IPv4) := (p.reached w).filter p.inEtcd

/-- One run for each of the hosts. -/
def oneByOne (p : Removal) (hs : List (Host IPv4)) (ms : List Member) : List Member :=
  hs.foldl (fun ms h => removeNode h (p.removeNodeIp h) ms) ms

theorem mem_removeEtcdNodes (hms : Sound ms) (hl : w.Answered) (hw : ∀ h, w.memberRemove h = true)
    (m : Member) :
    m ∈ (removeEtcdNodes p w ms).1 ↔
      m ∈ ms ∧ ∀ h ∈ p.leaving w, ¬ FoundAlone h (p.removeNodeIp h) ms m := by
  rw [removeEtcdNodes, mem_removeMembers hw]
  refine and_congr_right fun hm => ?_
  simp only [Removal.leaving, List.mem_filter, and_imp]
  refine forall₂_congr fun h _ => ?_
  cases hetcd : p.inEtcd h with
  | false => simp [Removal.etcdMemberId, hetcd]
  | true => simp [← etcdMemberId_eq_iff hl hms hetcd hm]

/-- A member that is found alone still is when there are fewer. -/
theorem foundAlone_of_subset {h : Host IPv4} {r : Option IPv4} {ms' : List Member} {m : Member}
    (hf : FoundAlone h r ms m) (hsub : ms' ⊆ ms) : FoundAlone h r ms' m := by
  obtain ⟨a, ha, halone⟩ := hf
  exact ⟨a, ha, fun n hn => halone n (hsub hn)⟩

theorem not_foundAlone_of_oneByOne (hms : Sound ms) {hs : List (Host IPv4)} {m : Member}
    (hm : m ∈ oneByOne p hs ms) : m ∈ ms ∧ ∀ h ∈ hs, ¬ FoundAlone h (p.removeNodeIp h) ms m := by
  induction hs generalizing ms with
  | nil => exact ⟨hm, by simp⟩
  | cons x hs ih =>
    obtain ⟨hkept, hlater⟩ := ih (hms.removeNode x (p.removeNodeIp x)) hm
    obtain ⟨hin, hfirst⟩ := (mem_removeNode hms x (p.removeNodeIp x) m).mp hkept
    refine ⟨hin, List.forall_mem_cons.mpr ⟨hfirst, fun h hh hf =>
      hlater h hh (foundAlone_of_subset hf ?_)⟩⟩
    exact fun n hn => ((mem_removeNode hms x (p.removeNodeIp x) n).mp hn).1

theorem mem_peerHosts_of_subset (hms : Sound ms) {ms' : List Member} (hsub : ms' ⊆ ms) {m : Member}
    (hm : m ∈ ms) : m.peerURL.host ∈ peerHosts ms' ↔ m ∈ ms' := by
  refine ⟨fun hin => ?_, fun hin => List.mem_map_of_mem hin⟩
  obtain ⟨n, hn, he⟩ := List.mem_map.mp hin
  exact hms.eq_of_peer (hsub hn) hm he ▸ hn

/-- Where no removal is refused, hosts that go together leave at least the members that they would
leave one by one, and exactly those of other hosts if their searches find their own members. -/
theorem removed_together (hms : Sound ms) (hl : w.Answered) (hw : ∀ h, w.memberRemove h = true) :
    oneByOne p (p.leaving w) ms ⊆ (removeEtcdNodes p w ms).1 ∧
      ((∀ a, a ∈ peerHosts (removeEtcdNodes p w ms).1 ↔
          a ∈ peerHosts ms ∧ a ∉ (p.leaving w).map Host.etcdAccessAddress) ↔
        ∀ m ∈ ms, (∃ h ∈ p.leaving w, FoundAlone h (p.removeNodeIp h) ms m) ↔
          m.peerURL.host ∈ (p.leaving w).map Host.etcdAccessAddress) := by
  have hmem := mem_removeEtcdNodes (p := p) hms hl hw
  have hsub : (removeEtcdNodes p w ms).1 ⊆ ms := fun m hm => ((hmem m).mp hm).1
  have hstays : ∀ m ∈ ms, m.peerURL.host ∈ peerHosts (removeEtcdNodes p w ms).1 ↔
      ¬ ∃ h ∈ p.leaving w, FoundAlone h (p.removeNodeIp h) ms m := by
    intro m hm
    rw [mem_peerHosts_of_subset hms hsub hm, hmem m, and_iff_right hm]
    simp
  refine ⟨fun m hm => (hmem m).mpr (not_foundAlone_of_oneByOne hms hm), ?_⟩
  constructor
  · intro hall m hm
    have hhost := hall m.peerURL.host
    rw [hstays m hm, and_iff_right (show m.peerURL.host ∈ peerHosts ms from List.mem_map_of_mem hm)] at hhost
    exact not_iff_not.mp hhost
  · intro hall a
    constructor
    · intro hin
      obtain ⟨m, hm, rfl⟩ := List.mem_map.mp hin
      have hstay := (hstays m (hsub hm)).mp hin
      exact ⟨List.mem_map_of_mem (hsub hm), mt (hall m (hsub hm)).mpr hstay⟩
    · rintro ⟨hin, hout⟩
      obtain ⟨m, hm, rfl⟩ := List.mem_map.mp hin
      exact (hstays m hm).mpr (mt (hall m hm).mp hout)

def member2 : Member := startedMember 1 ⟨"924e2e83e93f2560", by decide, by decide⟩ (.ofOctets 10 0 0 1)

/-- The address of node2 is the beginning of that of node1. -/
def beginning : Removal := { spaced with
  node := "node1,node2"
  hosts := [etcdNode "node1" (.ofOctets 10 0 0 10), etcdNode "node2" (.ofOctets 10 0 0 1)]
  hosts_nodup := by decide
  etcd := ["node1", "node2"] }

def accepting : World :=
  ⟨.ok, fun _ => [true], fun _ => true, fun _ => true, fun _ => true, fun _ => true, fun _ => true⟩

theorem beginning_stays : oneByOne beginning (beginning.leaving accepting) [member1, member2] = [] ∧
    ¬ ∀ a, a ∈ peerHosts (removeEtcdNodes beginning accepting [member1, member2]).1 ↔
      a ∈ peerHosts [member1, member2] ∧
        a ∉ (beginning.leaving accepting).map Host.etcdAccessAddress := by
  refine ⟨by decide +kernel, ?_⟩
  rw [(removed_together ⟨by decide, by decide, by decide⟩ (fun _ => rfl) fun _ => rfl).2]
  decide

end Together

end Kubespray.RemoveNode

import Kubespray.Etcd.Join
import Kubespray.Etcd.RemoveNode
import Kubespray.Lib.Runs
import Mathlib.Algebra.Order.BigOperators.Group.List

/-! The members of the etcd cluster over any sequence of runs: hosts join (configure.yml), start, and
are removed (remove-etcd-node). Above the member list stands the set of addresses that it should
have. -/
namespace Kubespray.Etcd
open Grep

/-- `ip | default(access_ip | default(remove_node_ip.stdout))`; none where nothing is left of it. -/
def nodeIp (h : Host IPv4) (removeNodeIp : Option IPv4) : Option IPv4 :=
  h.ip.or (h.accessIp.or removeNodeIp)

/-- `etcdctl member remove id`, which refuses what is not the id of a member. -/
def memberRemove (id : String) (ms : List Member) : List Member := ms.filter fun m => m.id.text ≠ id

/-- remove-etcd-node for one host, with what kubectl says of its address. -/
def removeNode (h : Host IPv4) (removeNodeIp : Option IPv4) (ms : List Member) : List Member :=
  match (nodeIp h removeNodeIp).bind (removeEtcdMember ms) with
  | some id => memberRemove id ms
  | none => ms

/-- The groups of the runs, whose hosts have addresses of their own. -/
structure Scaling where
  group : EtcdGroup IPv4
  addresses_nodup : (group.hosts.map Host.etcdAccessAddress).Nodup

def Scaling.addresses (g : Scaling) : List IPv4 := g.group.hosts.map Host.etcdAccessAddress

/-- The hosts that configure.yml lets join. -/
def Scaling.selected (g : Scaling) (ms : List Member) : List (Host IPv4) :=
  g.group.hosts.filter fun h => !registerMembership g.group.hosts ms h.inventoryHostname

section Steps
variable (newId : List Member → MemberId)

/-- configure.yml, where the run ends after `done` of the hosts have been added. -/
def joinRun (g : Scaling) (done : Nat) (ms : List Member) : List Member :=
  (((g.selected ms).take done).foldlM (joinEtcdMember newId g.group)
    ⟨ms, registerMembership g.group.hosts ms⟩).elim ms JoinState.cluster

/-- A member that starts tells the cluster its client URL, which is at the same address. -/
def startMember (a : IPv4) (ms : List Member) : List Member :=
  ms.map fun m => if m.peerURL.host = a then { m with status := "started", clientURL := some ⟨a, 2379⟩ }
    else m

inductive Command where
  | join (g : Scaling) (done : Nat)
  | start (a : IPv4)
  | remove (h : Host IPv4) (removeNodeIp : Option IPv4)

def step (ms : List Member) : Command → Except Empty (List Member)
  | .join g done => .ok (joinRun newId g done ms)
  | .start a => .ok (startMember a ms)
  | .remove h removeNodeIp => .ok (removeNode h removeNodeIp ms)

/-- A run that is not cut short. -/
def Scaling.Full (g : Scaling) (done : Nat) (ms : List Member) : Prop := (g.selected ms).length ≤ done

/-- What the run of all joins is in configure.yml. -/
theorem joinRun_full {g : Scaling} {done : Nat} {ms : List Member} (h : g.Full done ms) :
    joinRun newId g done ms = (configure newId g.group true ms).elim ms JoinState.cluster := by
  rw [joinRun, List.take_of_length_le h, configure]
  simp only [Bool.and_true]
  rfl

end Steps

section Invariant

/-- Ids and addresses are distinct, and a member has its URLs at one address. -/
structure Sound (ms : List Member) : Prop where
  ids : (ms.map Member.id).Nodup
  peers : (peerHosts ms).Nodup
  hosts : ∀ m ∈ ms, ∀ a ∈ m.hosts, a = m.peerURL.host

variable {ms : List Member}

theorem Sound.filter (h : Sound ms) (p : Member → Bool) : Sound (ms.filter p) where
  ids := (List.filter_sublist.map _).nodup h.ids
  peers := (List.filter_sublist.map _).nodup h.peers
  hosts m hm := h.hosts m (List.mem_filter.mp hm).1

theorem Sound.eq_of_id (h : Sound ms) {m n : Member} (hm : m ∈ ms) (hn : n ∈ ms) (he : m.id = n.id) :
    m = n := List.inj_on_of_nodup_map h.ids hm hn he

theorem Sound.eq_of_peer (h : Sound ms) {m n : Member} (hm : m ∈ ms) (hn : n ∈ ms)
    (he : m.peerURL.host = n.peerURL.host) : m = n := List.inj_on_of_nodup_map h.peers hm hn he

variable {newId : List Member → MemberId} (hnew : ∀ ms, newId ms ∉ ms.map Member.id)
include hnew

theorem Sound.memberAdd (h : Sound ms) (name : String) (u : Url) (hu : u.host ∉ peerHosts ms) :
    Sound (memberAdd newId ms name u) where
  ids := by
    rw [Etcd.memberAdd, List.map_append, List.nodup_append]
    refine ⟨h.ids, by simp, ?_⟩
    rintro i hi j hj rfl
    obtain rfl : i = newId ms := by simpa using hj
    exact hnew ms hi
  peers := by
    rw [peerHosts_memberAdd, List.nodup_append]
    refine ⟨h.peers, by simp, ?_⟩
    rintro a ha b hb rfl
    obtain rfl : a = u.host := by simpa using hb
    exact hu ha
  hosts := by
    intro m hm a ha
    cases List.mem_append.mp hm with
    | inl hm => exact h.hosts m hm a ha
    | inr hm =>
      obtain rfl := List.mem_singleton.mp hm
      simpa [Member.hosts] using ha

theorem joinLoop_sound {g : EtcdGroup IPv4} (hs : List (Host IPv4)) {s s' : JoinState}
    (h : Sound s.cluster) (hnodup : (hs.map Host.etcdAccessAddress).Nodup)
    (hout : ∀ x ∈ hs, x.etcdAccessAddress ∉ peerHosts s.cluster)
    (hloop : hs.foldlM (joinEtcdMember newId g) s = some s') : Sound s'.cluster := by
  induction hs generalizing s with
  | nil =>
    obtain rfl := Option.some.inj hloop
    exact h
  | cons x hs ih =>
    obtain ⟨hx, hnodup⟩ := List.nodup_cons.mp hnodup
    obtain ⟨t, ht, hpt⟩ := joinEtcdMember_spec newId g s x
    rw [List.foldlM_cons, ht] at hloop
    have hcluster : t.cluster = Etcd.memberAdd newId s.cluster (g.etcdMemberName x) x.etcdPeerUrl := by
      simp only [joinEtcdMember] at ht
      split at ht
      · rw [← Option.some.inj ht]
      · cases ht
    refine ih ?_ hnodup (fun y hy hin => ?_) hloop
    · rw [hcluster]
      exact h.memberAdd hnew _ _ (hout x (by simp))
    · rw [hpt, List.mem_append, List.mem_singleton] at hin
      cases hin with
      | inl hin => exact hout y (List.mem_cons_of_mem x hy) hin
      | inr hin => exact hx (hin ▸ List.mem_map_of_mem hy)

end Invariant

section Addresses
variable {ms : List Member}

theorem peerHosts_startMember (a : IPv4) (ms : List Member) :
    peerHosts (startMember a ms) = peerHosts ms := by
  rw [peerHosts, startMember, List.map_map]
  refine List.map_congr_left fun m _ => ?_
  rw [Function.comp]
  split <;> rfl

theorem Sound.startMember (h : Sound ms) (a : IPv4) : Sound (startMember a ms) where
  ids := by
    have hids : (Etcd.startMember a ms).map Member.id = ms.map Member.id := by
      rw [Etcd.startMember, List.map_map]
      refine List.map_congr_left fun m _ => ?_
      rw [Function.comp]
      split <;> rfl
    rw [hids]
    exact h.ids
  peers := by
    rw [peerHosts_startMember]
    exact h.peers
  hosts := by
    intro m hm b hb
    obtain ⟨n, hn, rfl⟩ := List.mem_map.mp hm
    by_cases ha : n.peerURL.host = a
    · simpa [Member.hosts, ha] using hb
    · rw [if_neg ha] at hb ⊢
      exact h.hosts n hn b hb

theorem Scaling.mem_selected (g : Scaling) (h : Host IPv4) :
    h ∈ g.selected ms ↔ h ∈ g.group.hosts ∧ memberListed ms h.etcdAccessAddress = false := by
  rw [Scaling.selected, List.mem_filter, Bool.not_eq_true']
  refine and_congr_right fun hm => ?_
  rw [← Bool.not_eq_true, ← Bool.not_eq_true, registerMembership_iff g.group ms h hm]

theorem Scaling.not_mem_of_selected (g : Scaling) {h : Host IPv4} (hs : h ∈ g.selected ms) :
    h.etcdAccessAddress ∉ peerHosts ms := by
  intro hin
  have hl := memberListed_of_mem ms _ hin
  rw [((g.mem_selected h).mp hs).2] at hl
  cases hl

theorem Scaling.selected_nodup (g : Scaling) (done : Nat) :
    (((g.selected ms).take done).map Host.etcdAccessAddress).Nodup :=
  (((List.take_sublist done _).trans List.filter_sublist).map _).nodup g.addresses_nodup

theorem peerHosts_joinRun (newId : List Member → MemberId) (g : Scaling) (done : Nat) :
    peerHosts (joinRun newId g done ms) =
      peerHosts ms ++ ((g.selected ms).take done).map Host.etcdAccessAddress := by
  obtain ⟨s, hs, hp⟩ := joinLoop_spec newId g.group ((g.selected ms).take done)
    ⟨ms, registerMembership g.group.hosts ms⟩
  rw [joinRun, hs, Option.elim, hp]

theorem Sound.joinRun {newId : List Member → MemberId} (hnew : ∀ ms, newId ms ∉ ms.map Member.id)
    (h : Sound ms) (g : Scaling) (done : Nat) : Sound (joinRun newId g done ms) := by
  obtain ⟨s, hs, _⟩ := joinLoop_spec newId g.group ((g.selected ms).take done)
    ⟨ms, registerMembership g.group.hosts ms⟩
  rw [Etcd.joinRun, hs, Option.elim]
  exact joinLoop_sound hnew _ h (g.selected_nodup done)
    (fun x hx => g.not_mem_of_selected (List.mem_of_mem_take hx)) hs

theorem Sound.removeNode (h : Sound ms) (x : Host IPv4) (r : Option IPv4) : Sound (removeNode x r ms) := by
  rw [Etcd.removeNode]
  split
  · exact h.filter _
  · exact h

/-- Every command keeps the members distinct, however its searches went. -/
theorem Sound.step {newId : List Member → MemberId} (hnew : ∀ ms, newId ms ∉ ms.map Member.id)
    {ms' : List Member} {c : Command} (h : Sound ms) (hs : step newId ms c = .ok ms') : Sound ms' := by
  cases c with
  | join g done =>
    obtain rfl := Except.ok.inj hs
    exact h.joinRun hnew g done
  | start a =>
    obtain rfl := Except.ok.inj hs
    exact h.startMember a
  | remove x r =>
    obtain rfl := Except.ok.inj hs
    exact h.removeNode x r

end Addresses

section Removal
variable {ms : List Member}

/-- The member whose printed line alone holds the node's address. -/
def FoundAlone (h : Host IPv4) (removeNodeIp : Option IPv4) (ms : List Member) (m : Member) : Prop :=
  ∃ a, nodeIp h removeNodeIp = some a ∧ ∀ n ∈ ms, Occurs a.exploded n.line ↔ n = m

theorem found_eq_singleton_iff (hms : Sound ms) (a : IPv4) {m : Member} (hm : m ∈ ms) :
    found ms a = [m] ↔ ∀ n ∈ ms, Occurs a.exploded n.line ↔ n = m := by
  have hmem : ∀ n, n ∈ found ms a ↔ n ∈ ms ∧ Occurs a.exploded n.line := by simp [found]
  constructor
  · intro hf n hn
    have h := hmem n
    rw [hf, List.mem_singleton] at h
    simpa [hn] using h.symm
  · intro hocc
    have hnodup : (found ms a).Nodup := (List.Nodup.of_map _ hms.ids).filter _
    refine List.perm_singleton.mp ((List.perm_ext_iff_of_nodup hnodup (List.nodup_singleton m)).mpr
      fun n => ?_)
    rw [hmem, List.mem_singleton]
    constructor
    · intro h
      exact (hocc n h.1).mp h.2
    · rintro rfl
      exact ⟨hm, (hocc n hm).mpr rfl⟩

theorem mem_memberRemove (hms : Sound ms) {m n : Member} (hn : n ∈ ms) :
    m ∈ memberRemove n.id.text ms ↔ m ∈ ms ∧ m ≠ n := by
  rw [memberRemove, List.mem_filter, decide_eq_true_iff]
  refine and_congr_right fun hm => not_congr ⟨fun he => ?_, fun he => by rw [he]⟩
  exact hms.eq_of_id hm hn (MemberId.eq_of_text he)

theorem memberRemove_of_newline {t : String} (ht : '\n' ∈ t.toList) (ms : List Member) :
    memberRemove t ms = ms := by
  rw [memberRemove, List.filter_eq_self]
  intro m _
  refine decide_eq_true fun he => m.id.not_mem_of_not_alphanum '\n' (by decide) ?_
  rwa [he]

/-- A member is gone exactly when it alone was found: of several finds none is the id of a member. -/
theorem mem_removeNode (hms : Sound ms) (h : Host IPv4) (r : Option IPv4) (m : Member) :
    m ∈ removeNode h r ms ↔ m ∈ ms ∧ ¬ FoundAlone h r ms m := by
  rw [removeNode]
  cases ha : nodeIp h r with
  | none => simp [FoundAlone, ha]
  | some a =>
    have halone : ∀ n ∈ ms, FoundAlone h r ms n ↔ found ms a = [n] := by
      intro n hn
      simp [FoundAlone, ha, found_eq_singleton_iff hms a hn]
    rw [Option.bind_some]
    cases hf : found ms a with
    | nil =>
      rw [removeEtcdMember_of_found_nil ms a hf]
      refine (and_iff_left_of_imp fun hm => ?_).symm
      simp [halone m hm, hf]
    | cons x l =>
      have hx : x ∈ ms := by
        have hin : x ∈ found ms a := by simp [hf]
        exact (List.mem_filter.mp hin).1
      cases l with
      | nil =>
        rw [removeEtcdMember_of_found_one ms a x hf]
        refine (mem_memberRemove hms hx).trans (and_congr_right fun hm => ?_)
        simp [halone m hm, hf, eq_comm]
      | cons y l =>
        obtain ⟨t, ht, hnewline⟩ := removeEtcdMember_of_found_two ms a x y l hf
        rw [ht]
        dsimp only
        rw [memberRemove_of_newline hnewline]
        refine (and_iff_left_of_imp fun hm => ?_).symm
        simp [halone m hm, hf]

end Removal

section Intention
variable {ms ms' : List Member}

/-- What a command is for, said of the addresses of the members alone. -/
def Intended (ms : List Member) : Command → List Member → Prop
  | .join g done, ms' => peerHosts ms ⊆ peerHosts ms' ∧
      (∀ a ∈ peerHosts ms', a ∈ peerHosts ms ∨ a ∈ g.addresses) ∧
      (g.Full done ms → g.addresses ⊆ peerHosts ms')
  | .start _, ms' => peerHosts ms' = peerHosts ms
  | .remove h _, ms' => ∀ a, a ∈ peerHosts ms' ↔ a ∈ peerHosts ms ∧ a ≠ h.etcdAccessAddress

/-- No search is misled: where every host is to join, no address of a host outside occurs in the line
of a member, and the member at the host that is removed is what its node_ip finds alone. -/
def Clear (ms : List Member) : Command → List Member → Prop
  | .join g done, _ => g.Full done ms → ∀ h ∈ g.group.hosts, h.etcdAccessAddress ∉ peerHosts ms →
      ∀ m ∈ ms, ¬ Occurs h.etcdAccessAddress.exploded m.line
  | .start _, _ => True
  | .remove h r, _ => ∀ m ∈ ms, FoundAlone h r ms m ↔ m.peerURL.host = h.etcdAccessAddress

theorem addresses_subset_joinRun_iff (newId : List Member → MemberId) {g : Scaling} {done : Nat}
    (hfull : g.Full done ms) :
    g.addresses ⊆ peerHosts (joinRun newId g done ms) ↔
      ∀ h ∈ g.group.hosts, h.etcdAccessAddress ∉ peerHosts ms →
        ∀ m ∈ ms, ¬ Occurs h.etcdAccessAddress.exploded m.line := by
  rw [peerHosts_joinRun, List.take_of_length_le hfull]
  constructor
  · intro hall h hh hout m hm hocc
    have hlisted := (memberListed_iff ms h.etcdAccessAddress).mpr ⟨m, hm, hocc⟩
    rcases List.mem_append.mp (hall (List.mem_map_of_mem hh)) with hin | hin
    · exact hout hin
    · obtain ⟨x, hx, he⟩ := List.mem_map.mp hin
      have hno := ((g.mem_selected x).mp hx).2
      rw [he, hlisted] at hno
      cases hno
  · intro hclear a ha
    obtain ⟨h, hh, rfl⟩ := List.mem_map.mp ha
    rw [List.mem_append]
    by_cases hin : h.etcdAccessAddress ∈ peerHosts ms
    · exact .inl hin
    · refine .inr (List.mem_map_of_mem ((g.mem_selected h).mpr ⟨hh, ?_⟩))
      rw [← Bool.not_eq_true, memberListed_iff]
      rintro ⟨m, hm, hocc⟩
      exact hclear h hh hin m hm hocc

theorem mem_peerHosts_removeNode (hms : Sound ms) (h : Host IPv4) (r : Option IPv4) {m : Member}
    (hm : m ∈ ms) : m.peerURL.host ∈ peerHosts (removeNode h r ms) ↔ ¬ FoundAlone h r ms m := by
  constructor
  · intro hin
    obtain ⟨n, hn, he⟩ := List.mem_map.mp hin
    obtain ⟨hnm, hno⟩ := (mem_removeNode hms h r n).mp hn
    exact hms.eq_of_peer hnm hm he ▸ hno
  · intro hno
    exact List.mem_map_of_mem ((mem_removeNode hms h r m).mpr ⟨hm, hno⟩)

theorem intended_iff_clear (newId : List Member → MemberId) (hms : Sound ms) {c : Command}
    (hs : step newId ms c = .ok ms') : Intended ms c ms' ↔ Clear ms c ms' := by
  cases c with
  | join g done =>
    obtain rfl := Except.ok.inj hs
    have hmem : peerHosts (joinRun newId g done ms) = _ := peerHosts_joinRun newId g done
    have hkeep : peerHosts ms ⊆ peerHosts (joinRun newId g done ms) := by
      rw [hmem]
      exact List.subset_append_left _ _
    have honly : ∀ a ∈ peerHosts (joinRun newId g done ms), a ∈ peerHosts ms ∨ a ∈ g.addresses := by
      intro a ha
      rw [hmem] at ha
      refine (List.mem_append.mp ha).imp_right fun ha => ?_
      obtain ⟨h, hh, rfl⟩ := List.mem_map.mp ha
      exact List.mem_map_of_mem ((g.mem_selected h).mp (List.mem_of_mem_take hh)).1
    constructor
    · intro h hfull
      exact (addresses_subset_joinRun_iff newId hfull).mp (h.2.2 hfull)
    · intro h
      exact ⟨hkeep, honly, fun hfull => (addresses_subset_joinRun_iff newId hfull).mpr (h hfull)⟩
  | start a =>
    obtain rfl := Except.ok.inj hs
    exact iff_of_true (peerHosts_startMember a ms) trivial
  | remove h r =>
    obtain rfl := Except.ok.inj hs
    constructor
    · intro hall m hm
      have hin := hall m.peerURL.host
      rw [mem_peerHosts_removeNode hms h r hm] at hin
      have hpeer : m.peerURL.host ∈ peerHosts ms := List.mem_map_of_mem hm
      rw [← not_iff_not]
      exact hin.trans (and_iff_right hpeer)
    · intro hclear a
      constructor
      · intro ha
        obtain ⟨m, hm, rfl⟩ := List.mem_map.mp ha
        obtain ⟨hm, hno⟩ := (mem_removeNode hms h r m).mp hm
        exact ⟨List.mem_map_of_mem hm, fun he => hno ((hclear m hm).mpr he)⟩
      · rintro ⟨ha, hne⟩
        obtain ⟨m, hm, rfl⟩ := List.mem_map.mp ha
        exact (mem_peerHosts_removeNode hms h r hm).mpr fun hf => hne ((hclear m hm).mp hf)

instance FoundAlone.decidable (h : Host IPv4) (r : Option IPv4) (ms : List Member) (m : Member) :
    Decidable (FoundAlone h r ms m) :=
  match ha : nodeIp h r with
  | none => .isFalse fun hf => by
      obtain ⟨a, hs, _⟩ := hf
      cases ha.symm.trans hs
  | some a => decidable_of_iff (∀ n ∈ ms, Occurs a.exploded n.line ↔ n = m) <| by simp [FoundAlone, ha]

instance Clear.decidable (ms : List Member) : ∀ c ms', Decidable (Clear ms c ms')
  | .join g done, _ => inferInstanceAs (Decidable ((g.selected ms).length ≤ done → ∀ h ∈ g.group.hosts,
      h.etcdAccessAddress ∉ peerHosts ms → ∀ m ∈ ms, ¬ Occurs h.etcdAccessAddress.exploded m.line))
  | .start _, _ => inferInstanceAs (Decidable True)
  | .remove h r, _ => inferInstanceAs
      (Decidable (∀ m ∈ ms, FoundAlone h r ms m ↔ m.peerURL.host = h.etcdAccessAddress))

/-- An id longer than all there are. -/
def longerId (ms : List Member) : MemberId where
  text := String.ofList (List.replicate ((ms.map fun m => m.id.text.length).sum + 1) 'a')
  nonempty := by
    rw [Ne, ← String.length_eq_zero_iff, String.length_ofList, List.length_replicate]
    exact Nat.succ_ne_zero _
  plain := by
    rw [String.toList_ofList, List.all_replicate, if_neg (Nat.succ_ne_zero _)]
    decide

theorem longerId_not_mem (ms : List Member) : longerId ms ∉ ms.map Member.id := by
  intro h
  obtain ⟨m, hm, he⟩ := List.mem_map.mp h
  have hle : m.id.text.length ≤ (ms.map fun m => m.id.text.length).sum :=
    List.le_sum_of_mem (List.mem_map_of_mem hm)
  have hlength : m.id.text.length = (ms.map fun m => m.id.text.length).sum + 1 := by
    rw [he, longerId, String.length_ofList, List.length_replicate]
  omega

/-- The second host is reached at 203.0.113.7 but has its own address 10.0.0.20. -/
def outsideScaling : Scaling where
  group :=
    { hosts :=
        [{ inventoryHostname := "node1", ip := some (.ofOctets 10 0 0 10), accessIp := none,
           etcdAccessAddressVar := none, etcdMemberNameVar := none,
           fallbackIp := .ofOctets 10 0 0 10 },
         { inventoryHostname := "node2", ip := some (.ofOctets 10 0 0 20),
           accessIp := some (.ofOctets 203 0 113 7), etcdAccessAddressVar := none,
           etcdMemberNameVar := none, fallbackIp := .ofOctets 203 0 113 7 }]
      names_nodup := by decide }
  addresses_nodup := by decide

end Intention

end Kubespray.Etcd

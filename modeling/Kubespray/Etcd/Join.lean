import Kubespray.Etcd.Member
import Kubespray.Etcd.Group
import Mathlib.Data.List.Count

/-! Joining the hosts of groups['etcd'] to the running cluster: the membership check on
every host, then the one-at-a-time join (roles/etcd/tasks/configure.yml, join_etcd_member.yml). -/
namespace Kubespray.Etcd
open Grep

def Host.etcdPeerUrl (h : Host IPv4) : Url := ⟨h.etcdAccessAddress, 2380⟩

/-- `etcdctl member list | grep -q address`: the exit status is zero. -/
def memberListed (ms : List Member) (a : IPv4) : Bool :=
  !(grep a.exploded (memberList ms)).isEmpty

/-- `etcdctl member add name --peer-urls=url`; the cluster picks the id. -/
def memberAdd (newId : List Member → MemberId) (ms : List Member) (name : String) (url : Url) :
    List Member :=
  ms ++ [{ id := newId ms, status := "unstarted", name := name, peerURL := url,
           clientURL := none, learner := false }]

structure JoinState where
  cluster : List Member
  /-- hostvars[host].etcd_member_in_cluster.rc == 0, by inventory name -/
  etcdMemberInCluster : String → Bool

variable (newId : List Member → MemberId) (g : EtcdGroup IPv4)

/-- Add the host, check that it is listed now, and register that check. The task
fails, and with it the play, when the host is not listed. -/
def joinEtcdMember (s : JoinState) (h : Host IPv4) : Option JoinState :=
  let cluster := memberAdd newId s.cluster (g.etcdMemberName h) h.etcdPeerUrl
  if memberListed cluster h.etcdAccessAddress then
    some ⟨cluster, Function.update s.etcdMemberInCluster h.inventoryHostname true⟩
  else none

/-- Check if member is in etcd cluster, on every host before any of them joins. -/
def registerMembership (hosts : List (Host IPv4)) (ms : List Member) (name : String) : Bool :=
  hosts.any fun h => h.inventoryHostname = name ∧ memberListed ms h.etcdAccessAddress

/-- The part of configure.yml from the membership check on, with the health check's result. -/
def configure (healthy : Bool) (ms : List Member) : Option JoinState :=
  let registered := registerMembership g.hosts ms
  (g.hosts.filter fun h => !registered h.inventoryHostname && healthy).foldlM
    (joinEtcdMember newId g) ⟨ms, registered⟩

def peerHosts (ms : List Member) : List IPv4 := ms.map fun m => m.peerURL.host

theorem memberListed_iff (ms : List Member) (a : IPv4) :
    memberListed ms a = true ↔ ∃ m ∈ ms, Occurs a.exploded m.line := by
  simp only [memberListed, Bool.not_eq_true', List.isEmpty_eq_false_iff_exists_mem, mem_grep,
    memberList, List.mem_map]
  constructor
  · intro hfacts
    obtain ⟨l, ⟨m, hm, rfl⟩, ho⟩ := hfacts
    exact ⟨m, hm, ho⟩
  · intro hfacts
    obtain ⟨m, hm, ho⟩ := hfacts
    exact ⟨m.line, ⟨m, hm, rfl⟩, ho⟩

theorem memberListed_of_mem (ms : List Member) (a : IPv4) (h : a ∈ peerHosts ms) :
    memberListed ms a = true := by
  obtain ⟨m, hm, rfl⟩ := List.mem_map.mp h
  exact (memberListed_iff ms _).mpr ⟨m, hm, m.occurs_line _ (by simp [Member.hosts])⟩

theorem peerHosts_memberAdd (ms : List Member) (name : String) (u : Url) :
    peerHosts (memberAdd newId ms name u) = peerHosts ms ++ [u.host] := by
  simp [peerHosts, memberAdd]

theorem joinEtcdMember_spec (s : JoinState) (h : Host IPv4) :
    ∃ s', joinEtcdMember newId g s h = some s' ∧
      peerHosts s'.cluster = peerHosts s.cluster ++ [h.etcdAccessAddress] := by
  have hp := peerHosts_memberAdd newId s.cluster (g.etcdMemberName h) h.etcdPeerUrl
  have hl := memberListed_of_mem (memberAdd newId s.cluster (g.etcdMemberName h) h.etcdPeerUrl)
    h.etcdAccessAddress (by rw [hp]; simp [Host.etcdPeerUrl])
  simp only [joinEtcdMember, hl, if_true]
  exact ⟨_, rfl, hp⟩

/-- The loop adds exactly the hosts it is given, each once and in order. -/
theorem joinLoop_spec (hs : List (Host IPv4)) (s : JoinState) :
    ∃ s', hs.foldlM (joinEtcdMember newId g) s = some s' ∧
      peerHosts s'.cluster = peerHosts s.cluster ++ hs.map Host.etcdAccessAddress := by
  induction hs generalizing s with
  | nil => exact ⟨s, rfl, by simp⟩
  | cons h hs ih =>
    obtain ⟨t, ht, hpt⟩ := joinEtcdMember_spec newId g s h
    obtain ⟨s', hs', hps⟩ := ih t
    refine ⟨s', by simp [ht, hs'], ?_⟩
    rw [hps, hpt, List.append_assoc, List.map_cons, List.singleton_append]

/-- A group with distinct access addresses, and the members the cluster has at some of them. -/
structure JoinSetting where
  group : EtcdGroup IPv4
  addresses_nodup : (group.hosts.map Host.etcdAccessAddress).Nodup
  cluster : List Member
  peers_nodup : (peerHosts cluster).Nodup
  peers_from_group : ∀ a ∈ peerHosts cluster, ∃ h ∈ group.hosts, a = h.etcdAccessAddress

/-- After the run every host of the group is a member exactly once, and nobody else is one. -/
def Converges (j : JoinSetting) : Prop :=
  ∃ s, configure newId j.group true j.cluster = some s ∧
    (∀ h ∈ j.group.hosts, (peerHosts s.cluster).count h.etcdAccessAddress = 1) ∧
    ∀ a ∈ peerHosts s.cluster, ∃ h ∈ j.group.hosts, a = h.etcdAccessAddress

theorem registerMembership_iff (ms : List Member) (h : Host IPv4)
    (hm : h ∈ g.hosts) : registerMembership g.hosts ms h.inventoryHostname = true ↔
      memberListed ms h.etcdAccessAddress = true := by
  simp only [registerMembership, List.any_eq_true, decide_eq_true_iff]
  constructor
  · intro hfacts
    obtain ⟨x, hx, hn, hl⟩ := hfacts
    rwa [← g.eq_of_name_eq hx hm hn]
  · intro hl
    exact ⟨h, hm, rfl, hl⟩

theorem JoinSetting.eq_of_address_eq (j : JoinSetting) {a b : Host IPv4}
    (ha : a ∈ j.group.hosts) (hb : b ∈ j.group.hosts)
    (h : a.etcdAccessAddress = b.etcdAccessAddress) : a = b :=
  List.inj_on_of_nodup_map j.addresses_nodup ha hb h

def JoinSetting.selected (j : JoinSetting) : List (Host IPv4) :=
  j.group.hosts.filter fun h => !registerMembership j.group.hosts j.cluster h.inventoryHostname

theorem JoinSetting.mem_selected (j : JoinSetting) (h : Host IPv4) :
    h ∈ j.selected ↔ h ∈ j.group.hosts ∧ memberListed j.cluster h.etcdAccessAddress = false := by
  rw [JoinSetting.selected, List.mem_filter, Bool.not_eq_true']
  refine and_congr_right fun hm => ?_
  rw [← Bool.not_eq_true, ← Bool.not_eq_true, registerMembership_iff j.group j.cluster h hm]

theorem configure_spec (j : JoinSetting) :
    ∃ s, configure newId j.group true j.cluster = some s ∧
      peerHosts s.cluster = peerHosts j.cluster ++ j.selected.map Host.etcdAccessAddress := by
  simpa [configure, JoinSetting.selected] using joinLoop_spec newId j.group j.selected
    ⟨j.cluster, registerMembership j.group.hosts j.cluster⟩

/-- The joins converge exactly when no host that is still outside the cluster is
mistaken for a member because its address occurs in a member's printed line. -/
theorem converges_iff (j : JoinSetting) :
    Converges newId j ↔
      ∀ h ∈ j.group.hosts, h.etcdAccessAddress ∉ peerHosts j.cluster →
        ∀ m ∈ j.cluster, ¬ Occurs h.etcdAccessAddress.exploded m.line := by
  obtain ⟨s, hs, hp⟩ := configure_spec newId j
  have hsel : ∀ h ∈ j.group.hosts,
      h.etcdAccessAddress ∈ j.selected.map Host.etcdAccessAddress ↔ h ∈ j.selected := by
    intro h hm
    refine ⟨fun ha => ?_, List.mem_map_of_mem⟩
    obtain ⟨x, hx, hxa⟩ := List.mem_map.mp ha
    rwa [← j.eq_of_address_eq ((j.mem_selected x).mp hx).1 hm hxa]
  constructor
  · intro hfacts
    obtain ⟨s', hs', hone, _⟩ := hfacts
    intro h hm hout m hmc hocc
    obtain rfl : s = s' := by simpa [hs] using hs'
    have hlisted := (memberListed_iff j.cluster h.etcdAccessAddress).mpr ⟨m, hmc, hocc⟩
    have hnot : h ∉ j.selected := by simp [j.mem_selected, hlisted]
    have hcount := hone h hm
    have hin : h.etcdAccessAddress ∈ peerHosts s.cluster := by
      rw [← List.count_pos_iff, hcount]
      exact Nat.one_pos
    rw [hp, List.mem_append, hsel h hm] at hin
    exact hin.elim hout hnot
  · intro hout
    refine ⟨s, hs, ?_, ?_⟩
    · have hnodup : (peerHosts s.cluster).Nodup := by
        rw [hp, List.nodup_append]
        refine ⟨j.peers_nodup, j.addresses_nodup.sublist (List.filter_sublist.map _), ?_⟩
        rintro a ha b hb rfl
        obtain ⟨h, hx, rfl⟩ := List.mem_map.mp hb
        have hl := memberListed_of_mem j.cluster _ ha
        simp [((j.mem_selected h).mp hx).2] at hl
      intro h hm
      refine List.count_eq_one_of_mem hnodup ?_
      rw [hp, List.mem_append, hsel h hm, j.mem_selected]
      by_cases hc : h.etcdAccessAddress ∈ peerHosts j.cluster
      · exact .inl hc
      · have hl : ¬ memberListed j.cluster h.etcdAccessAddress = true := by
          rw [memberListed_iff]
          intro hfacts
          obtain ⟨m, hmc, hocc⟩ := hfacts
          exact hout h hm hc m hmc hocc
        exact .inr ⟨hm, by simpa using hl⟩
    · intro a ha
      rw [hp, List.mem_append] at ha
      cases ha with
      | inl ha => exact j.peers_from_group a ha
      | inr ha =>
        obtain ⟨h, hx, rfl⟩ := List.mem_map.mp ha
        exact ⟨h, ((j.mem_selected h).mp hx).1, rfl⟩

def prefixSetting : JoinSetting where
  group :=
    { hosts :=
        [{ inventoryHostname := "node1", ip := some (.ofOctets 10 0 0 10), accessIp := none,
           etcdAccessAddressVar := none, etcdMemberNameVar := none,
           fallbackIp := .ofOctets 10 0 0 10 },
         { inventoryHostname := "node2", ip := some (.ofOctets 10 0 0 1), accessIp := none,
           etcdAccessAddressVar := none, etcdMemberNameVar := none,
           fallbackIp := .ofOctets 10 0 0 1 }]
      names_nodup := by decide }
  addresses_nodup := by decide
  cluster :=
    [{ id := ⟨"8211f1d0f64f3269", by decide, by decide⟩, status := "started", name := "etcd1",
       peerURL := ⟨.ofOctets 10 0 0 10, 2380⟩, clientURL := some ⟨.ofOctets 10 0 0 10, 2379⟩,
       learner := false }]
  peers_nodup := by decide
  peers_from_group := by decide

/-- The host at 10.0.0.1 is taken for the member at 10.0.0.10 and never joins. -/
theorem prefix_never_joins : ¬ ∀ newId, Converges newId prefixSetting := by
  intro h
  let newId : List Member → MemberId := fun _ => ⟨"91bc3c398fb3c146", by decide, by decide⟩
  obtain ⟨s, hs, hone, _⟩ := h newId
  have hskip : configure newId prefixSetting.group true prefixSetting.cluster = some
      ⟨prefixSetting.cluster,
        registerMembership prefixSetting.group.hosts prefixSetting.cluster⟩ := by rfl
  rw [hskip, Option.some.injEq] at hs
  subst hs
  exact absurd hone (by decide)

end Kubespray.Etcd

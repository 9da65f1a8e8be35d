import Kubespray.Etcd.Group
import Kubespray.Lib.Text

/-! ETCD_INITIAL_CLUSTER as the steady state renders it (kubespray-defaults) and as
join_etcd_member.yml renders it while a host joins: two loops over groups['etcd']. -/
namespace Kubespray.Etcd

/-- One `name=peer-url` entry of the list. -/
structure PeerPair where
  name : String
  url : String
  deriving DecidableEq

def PeerPair.text (p : PeerPair) : String := p.name ++ "=" ++ p.url

def peerList (ps : List PeerPair) : String := ",".intercalate (ps.map PeerPair.text)

/-- The entry of the `i`-th host in the etcd_peer_addresses default. -/
def steadyPair (p : Host String × Nat) : PeerPair :=
  ⟨p.1.etcdMemberNameVar.getD (indexName p.2), "https://" ++ p.1.hostvarsAddress ++ ":2380"⟩

/-- The entry the join path prints for the `i`-th host, when it is in the cluster. -/
def joinPair (p : Host String × Nat) : PeerPair :=
  ⟨indexName p.2, "https://" ++ p.1.hostvarsAddress ++ ":2380"⟩

namespace EtcdGroup
variable (g : EtcdGroup String)

/-- The entry the joining host prints for itself: `etcd_member_name=etcd_peer_url`. -/
def ownPair (h : Host String) : PeerPair :=
  ⟨g.etcdMemberName h, "https://" ++ h.etcdAccessAddress ++ ":2380"⟩

/-- etcd_peer_addresses (kubespray-defaults). -/
def etcdPeerAddresses : String :=
  String.join (g.hosts.zipIdx.map fun p =>
    (steadyPair p).text ++ if p.2 + 1 ≠ g.hosts.length then "," else "")

/-- etcd_peer_addresses while `h` joins; `inCluster` is the registered
`etcd_member_in_cluster.rc == 0` of each host at that moment. -/
def joinPeerAddresses (inCluster : Host String → Bool) (h : Host String) : String :=
  String.join (g.hosts.zipIdx.map fun p =>
    (if inCluster p.1 then (joinPair p).text ++ "," else "") ++
      if p.2 + 1 = g.hosts.length then (g.ownPair h).text else "")

def joinPairs (inCluster : Host String → Bool) (h : Host String) : List PeerPair :=
  (g.hosts.zipIdx.filter fun p => inCluster p.1).map joinPair ++ [g.ownPair h]

/-- The entries of the etcd_peer_addresses default for the hosts that satisfy `c`. -/
def steadyPairs (c : Host String → Bool) : List PeerPair :=
  (g.hosts.zipIdx.filter fun p => c p.1).map steadyPair

theorem joinPeerAddresses_eq (inCluster : Host String → Bool) (h : Host String)
    (hg : g.hosts ≠ []) : g.joinPeerAddresses inCluster h = peerList (g.joinPairs inCluster h) := by
  have hl := String.join_zipIdx_last
    (fun p : Host String × Nat => if inCluster p.1 then (joinPair p).text ++ "," else "")
    (g.ownPair h).text g.hosts 0 hg
  simp only [Nat.zero_add] at hl
  rw [joinPeerAddresses, hl, String.join_map_if (fun p : Host String × Nat => inCluster p.1)
    (fun p => (joinPair p).text ++ ",")]
  rw [peerList, joinPairs, List.map_append, List.map_singleton, String.intercalate_append_singleton]
  simp only [List.map_map, Function.comp_def]

theorem etcdPeerAddresses_eq : g.etcdPeerAddresses = peerList (g.steadyPairs fun _ => true) := by
  have hl := String.join_zipIdx_sep (fun p => (steadyPair p).text) "," g.hosts 0
  simp only [Nat.zero_add] at hl
  rw [etcdPeerAddresses, hl, peerList, steadyPairs, List.filter_true, List.map_map]
  rfl

theorem zipIdx_names_nodup :
    (g.hosts.zipIdx.map fun p => p.1.inventoryHostname).Nodup := by
  have h : (g.hosts.zipIdx.map fun p => p.1.inventoryHostname) =
      g.hosts.map Host.inventoryHostname := by
    rw [← List.zipIdx_map_fst 0 g.hosts, List.map_map]
    simp [Function.comp_def]
  rw [h]
  exact g.names_nodup

/-- A host's own ETCD_NAME is the name the steady-state list gives it. -/
theorem etcdMemberName_eq (p : Host String × Nat) (hp : p ∈ g.hosts.zipIdx) :
    g.etcdMemberName p.1 = (steadyPair p).name := by
  have hj := String.join_map_if
    (fun x : Host String × Nat => decide (x.1.inventoryHostname = p.1.inventoryHostname))
    (fun x => x.1.etcdMemberNameVar.getD (indexName x.2)) g.hosts.zipIdx
  have hf := filter_key_eq_singleton (fun x : Host String × Nat => x.1.inventoryHostname)
    g.hosts.zipIdx g.zipIdx_names_nodup p hp
  simp only [decide_eq_true_eq, hf, List.map_singleton, String.join_cons, String.join_nil,
    String.append_empty] at hj
  rw [etcdMemberName, hj, steadyPair]
  cases p.1.etcdMemberNameVar <;> rfl

theorem joinPair_eq_steadyPair_iff (p : Host String × Nat) :
    joinPair p = steadyPair p ↔
      p.1.etcdMemberNameVar = none ∨ p.1.etcdMemberNameVar = some (indexName p.2) := by
  cases hn : p.1.etcdMemberNameVar <;> simp [joinPair, steadyPair, hn, eq_comm]

theorem ownPair_eq_steadyPair_iff (p : Host String × Nat) (hp : p ∈ g.hosts.zipIdx) :
    g.ownPair p.1 = steadyPair p ↔ p.1.etcdAccessAddress = p.1.hostvarsAddress := by
  have hn := g.etcdMemberName_eq p hp
  simp only [ownPair, hn, steadyPair, PeerPair.mk.injEq, true_and, String.append_left_inj,
    String.append_right_inj]

theorem steadyPairs_singleton (p : Host String × Nat) (hp : p ∈ g.hosts.zipIdx) :
    g.steadyPairs (fun x => x.inventoryHostname = p.1.inventoryHostname) = [steadyPair p] := by
  rw [steadyPairs, filter_key_eq_singleton (fun x : Host String × Nat => x.1.inventoryHostname)
    g.hosts.zipIdx g.zipIdx_names_nodup p hp, List.map_singleton]

/-- The joining host is given one entry for each host in the cluster and one for
itself, each the steady-state entry of that host and named by its own ETCD_NAME. -/
def JoinAgrees (inCluster : Host String → Bool) (h : Host String) : Prop :=
  g.joinPairs inCluster h = g.steadyPairs inCluster ++
    g.steadyPairs (fun x => x.inventoryHostname = h.inventoryHostname) ∧
  (g.joinPairs inCluster h).map PeerPair.name =
    (g.hosts.filter inCluster ++ [h]).map g.etcdMemberName

theorem joinPairs_names (inCluster : Host String → Bool) (h : Host String)
    (hagree : g.joinPairs inCluster h = g.steadyPairs inCluster ++ [g.ownPair h]) :
    (g.joinPairs inCluster h).map PeerPair.name =
      (g.hosts.filter inCluster ++ [h]).map g.etcdMemberName := by
  have hnames : ∀ l : List (Host String × Nat), l ⊆ g.hosts.zipIdx →
      (l.map steadyPair).map PeerPair.name = (l.map Prod.fst).map g.etcdMemberName := by
    intro l hl
    rw [List.map_map, List.map_map]
    exact List.map_congr_left fun p hp => (g.etcdMemberName_eq p (hl hp)).symm
  have hfst : (g.hosts.zipIdx.filter fun p => inCluster p.1).map Prod.fst =
      g.hosts.filter inCluster := by
    conv_rhs => rw [← List.zipIdx_map_fst 0 g.hosts, List.filter_map]
    rfl
  rw [hagree, List.map_append, steadyPairs, hnames _ List.filter_sublist.subset, hfst,
    List.map_append]
  rfl

def namedGroup : EtcdGroup String where
  hosts :=
    [{ inventoryHostname := "node1", ip := some "10.0.0.1", accessIp := none,
       etcdAccessAddressVar := none, etcdMemberNameVar := some "etcd2", fallbackIp := "10.0.0.1" },
     { inventoryHostname := "node2", ip := some "10.0.0.2", accessIp := none,
       etcdAccessAddressVar := none, etcdMemberNameVar := some "etcd1", fallbackIp := "10.0.0.2" },
     { inventoryHostname := "node3", ip := some "10.0.0.3", accessIp := none,
       etcdAccessAddressVar := none, etcdMemberNameVar := none, fallbackIp := "10.0.0.3" }]
  names_nodup := by decide

def namedGroup.joining : Host String :=
  { inventoryHostname := "node3", ip := some "10.0.0.3", accessIp := none,
    etcdAccessAddressVar := none, etcdMemberNameVar := none, fallbackIp := "10.0.0.3" }

end EtcdGroup
end Kubespray.Etcd

import Kubespray.Etcd.Membership
import Kubespray.Lib.Hosts
import Kubespray.Lib.Text

/-! remove-node.yml: the nodes that are named are drained (remove-node/pre-remove), the hosts that are
selected leave etcd (remove-node/remove-etcd-node) and are reset, and their nodes are deleted
(remove-node/post-remove). -/
namespace Kubespray.RemoveNode
open Etcd Playbook

structure Removal where
  /-- The extra variable, which the plays have as their pattern. -/
  node : String
  /-- The hosts that the pattern selects. -/
  hosts : List (Host IPv4)
  hosts_nodup : hosts.Nodup
  /-- `groups['etcd']` -/
  etcd : List String
  /-- `hostvars[item]['kube_override_hostname']` -/
  hostvarsOverride : String → Option String
  /-- `kube_override_hostname | default(inventory_hostname)` on the host itself -/
  nodeName : Host IPv4 → String
  /-- The InternalIP of the host's node. -/
  removeNodeIp : Host IPv4 → Option IPv4
  allowUngracefulRemoval : Bool
  drainRetries : Nat
  resetNodes : Bool

structure State where
  /-- The nodes that kubectl lists. -/
  nodes : List String
  drained : List String
  members : List Member
  /-- The hosts where the role reset has begun. -/
  wiped : List (Host IPv4)

def start (nodes : List String) (ms : List Member) : State := ⟨nodes, [], ms, []⟩

/-- How the commands of one run end. -/
structure World where
  /-- What comes before the nodes are drained. -/
  prepare : Outcome
  /-- The attempts at one item. -/
  drain : String → List Bool
  /-- The tasks of the second play before node_ip is set. -/
  reach : Host IPv4 → Bool
  /-- The list of members is printed; the error is ignored where it is not. -/
  lookup : Host IPv4 → Bool
  memberRemove : Host IPv4 → Bool
  reset : Host IPv4 → Bool
  /-- The third play, up to the call of `kubectl delete node`. -/
  delete : Host IPv4 → Bool

section Play
variable (p : Removal) (w : World)

/-- `node.split(',')` -/
def Removal.items : List String := (splitChar ',' p.node.toList).map String.ofList

def Removal.itemName (item : String) : String := (p.hostvarsOverride item).getD item

def drainAttempt (name : String) (ok : Bool) : Action State := fun s =>
  if ok then .completed { s with drained := name :: s.drained }
  else if p.allowUngracefulRemoval then .completed s
  else .failed s

def drainItem (item : String) : Action State := fun s =>
  only (s.nodes.contains (p.itemName item))
    (retry (((w.drain item).take (p.drainRetries + 1)).map (drainAttempt p (p.itemName item)))) s

def preRemove : Action State :=
  inOrder [noEffect w.prepare, eachItem (p.items.map (drainItem p w))]

def Removal.inEtcd (h : Host IPv4) : Bool := p.etcd.contains h.inventoryHostname

/-- Make sure node_ip is set -/
def Removal.hasNodeIp (h : Host IPv4) : Bool := !p.inEtcd h || (nodeIp h (p.removeNodeIp h)).isSome

/-- etcd_member_id.stdout, where there is something in it -/
def Removal.etcdMemberId (ms : List Member) (h : Host IPv4) : Option String :=
  if p.inEtcd h && w.lookup h then (nodeIp h (p.removeNodeIp h)).bind (removeEtcdMember ms) else none

/-- Remove etcd member from cluster, on one host after the other; those where it fails are left out
of what follows. -/
def removeMembers (ids : Host IPv4 → Option String) :
    List (Host IPv4) → List Member → List Member × List (Host IPv4)
  | [], ms => (ms, [])
  | h :: hs, ms =>
    match ids h with
    | none => ((removeMembers ids hs ms).1, h :: (removeMembers ids hs ms).2)
    | some id =>
      if w.memberRemove h && ms.any (·.id.text == id) then
        let rest := removeMembers ids hs (memberRemove id ms)
        (rest.1, h :: rest.2)
      else removeMembers ids hs ms

/-- The hosts that have come as far as node_ip. -/
def Removal.reached : List (Host IPv4) := p.hosts.filter fun h => w.reach h && p.hasNodeIp h

/-- The role remove-etcd-node: all ids are looked up before the first member is removed. -/
def removeEtcdNodes (ms : List Member) : List Member × List (Host IPv4) :=
  removeMembers w (p.etcdMemberId w ms) (p.reached w) ms

def Removal.deletes (h : Host IPv4) : Bool := (!p.resetNodes || w.reset h) && w.delete h

/-- The plays behind the one that drains. -/
def leave (s : State) : State :=
  let left := removeEtcdNodes p w s.members
  let toDelete := left.2.filter (p.deletes w)
  { s with
    members := left.1
    wiped := s.wiped ++ if p.resetNodes then left.2 else []
    nodes := s.nodes.filter fun n => !(toDelete.map p.nodeName).contains n }

def World.Answered : Prop := ∀ h, w.lookup h = true

def run (s : State) : State :=
  match preRemove p w s with
  | .completed s' => leave p w s'
  | .failed s' => s'
  | .aborted s' => s'

end Play

section Drain
variable {p : Removal} {w : World} {s s' : State}

/-- What the first play may do: more nodes are drained, of those that are named. -/
structure Drains (p : Removal) (s s' : State) : Prop where
  nodes : s'.nodes = s.nodes
  members : s'.members = s.members
  wiped : s'.wiped = s.wiped
  keeps : s.drained ⊆ s'.drained
  named : ∀ n ∈ s'.drained, n ∈ s.drained ∨ n ∈ p.items.map p.itemName

theorem Drains.refl (p : Removal) (s : State) : Drains p s s :=
  ⟨rfl, rfl, rfl, fun _ h => h, fun _ h => .inl h⟩

theorem Drains.trans {t : State} (hst : Drains p s t) (hts : Drains p t s') : Drains p s s' where
  nodes := hts.nodes.trans hst.nodes
  members := hts.members.trans hst.members
  wiped := hts.wiped.trans hst.wiped
  keeps := fun _ h => hts.keeps (hst.keeps h)
  named := fun n h => (hts.named n h).elim (hst.named n) .inr

theorem drainAttempt_drains {item : String} (hi : item ∈ p.items) (ok : Bool) (s : State) :
    Drains p s (drainAttempt p (p.itemName item) ok s).state := by
  rw [drainAttempt]
  split
  · refine ⟨rfl, rfl, rfl, List.subset_cons_self _ _, fun n hn => ?_⟩
    exact (List.mem_cons.mp hn).elim (fun he => .inr (he ▸ List.mem_map_of_mem hi)) .inl
  · split <;> exact Drains.refl p s

theorem drainItem_drains {item : String} (hi : item ∈ p.items) (s : State) :
    Drains p s (drainItem p w item s).state := by
  rw [drainItem, only]
  split
  · refine retry_rel (Drains.refl p) (fun _ _ _ => Drains.trans) (fun t ht s => ?_) s
    obtain ⟨ok, -, rfl⟩ := List.mem_map.mp ht
    exact drainAttempt_drains hi ok s
  · exact Drains.refl p s

theorem preRemove_drains (s : State) : Drains p s (preRemove p w s).state := by
  refine inOrder_rel (Drains.refl p) (fun _ _ _ => Drains.trans) (fun t ht s => ?_) s
  simp only [List.mem_cons, List.not_mem_nil, or_false] at ht
  obtain rfl | rfl := ht
  · rw [noEffect, state_perform]
    simp [Drains.refl]
  · refine eachItem_rel (Drains.refl p) (fun _ _ _ => Drains.trans) (fun t ht s => ?_) s
    obtain ⟨item, hi, rfl⟩ := List.mem_map.mp ht
    exact drainItem_drains hi s

/-- Unless it is allowed to fail, an item that is done with has been drained if it is a node. -/
theorem drained_of_drainItem {item : String} (hallow : p.allowUngracefulRemoval = false)
    (h : drainItem p w item s = .completed s') (hnode : p.itemName item ∈ s.nodes) :
    p.itemName item ∈ s'.drained := by
  rw [drainItem, only, if_pos (by simpa using hnode)] at h
  obtain ⟨t, ht, u, hu⟩ := retry_completed h
  obtain ⟨ok, -, rfl⟩ := List.mem_map.mp ht
  rw [drainAttempt, hallow] at hu
  cases ok with
  | true =>
    obtain rfl := Ended.completed.inj hu
    exact List.mem_cons_self
  | false => cases hu

theorem drained_of_preRemove (hallow : p.allowUngracefulRemoval = false)
    (h : preRemove p w s = .completed s') {n : String} (hnode : n ∈ s.nodes)
    (hnamed : n ∈ p.items.map p.itemName) : n ∈ s'.drained := by
  obtain ⟨item, hi, rfl⟩ := List.mem_map.mp hnamed
  obtain ⟨u, hu, hstate, hrest⟩ := completed_of_cons h
  obtain ⟨v, hv, -, hend⟩ := completed_of_cons hrest
  obtain rfl : v = s' := Ended.completed.inj hend
  obtain rfl : s = u := by
    rw [noEffect, state_perform, Option.getD_some, ite_self] at hstate
    exact hstate
  have hitems : ∀ t ∈ p.items.map (drainItem p w), ∀ s, Drains p s (t s).state := by
    intro t ht s
    obtain ⟨i, hi, rfl⟩ := List.mem_map.mp ht
    exact drainItem_drains hi s
  obtain ⟨x, y, hx, hxy, hy⟩ := exists_of_inOrder (Drains.refl p) (fun _ _ _ => Drains.trans) hitems
    (eachItem_completed hv) (List.mem_map_of_mem hi)
  exact hy.keeps (drained_of_drainItem hallow hxy (hx.nodes ▸ hnode))

end Drain

section Members
variable {p : Removal} {w : World} {ids : Host IPv4 → Option String} {h : Host IPv4} {ms : List Member}

theorem removeMembers_subset (hs : List (Host IPv4)) (ms : List Member) :
    (removeMembers w ids hs ms).1 ⊆ ms := by
  induction hs generalizing ms with
  | nil => exact fun _ hm => hm
  | cons x hs ih =>
    rw [removeMembers]
    cases ids x with
    | none => exact ih ms
    | some id =>
      dsimp only
      split
      · exact fun m hm => (List.mem_filter.mp (ih _ hm)).1
      · exact ih ms

/-- A host goes on where it has no member to remove, or the removal of one has been accepted. -/
theorem removeMembers_left {hs : List (Host IPv4)} (hh : h ∈ (removeMembers w ids hs ms).2) :
    h ∈ hs ∧ ∀ id, ids h = some id →
      (∃ m ∈ ms, m.id.text = id) ∧ ∀ m ∈ (removeMembers w ids hs ms).1, m.id.text ≠ id := by
  induction hs generalizing ms with
  | nil => cases hh
  | cons x hs ih =>
    rw [removeMembers] at hh ⊢
    cases hx : ids x with
    | none =>
      rw [hx] at hh
      cases List.mem_cons.mp hh with
      | inl he => exact ⟨by simp [he], fun id hid => by simp [he, hx] at hid⟩
      | inr hh => exact (ih hh).imp_left (List.mem_cons_of_mem x)
    | some t =>
      rw [hx] at hh
      dsimp only at hh ⊢
      split at hh
      · rename_i hok
        rw [if_pos hok]
        rw [Bool.and_eq_true, List.any_eq_true] at hok
        obtain ⟨m, hm, ht⟩ := hok.2
        cases List.mem_cons.mp hh with
        | inl he =>
          refine ⟨by simp [he], fun id hid => ?_⟩
          obtain rfl : t = id := by simpa [he, hx] using hid
          refine ⟨⟨m, hm, by simpa using ht⟩, fun n hn => ?_⟩
          have hkept := removeMembers_subset _ _ hn
          exact of_decide_eq_true (List.mem_filter.mp hkept).2
        | inr hh =>
          obtain ⟨hin, hids⟩ := ih hh
          refine ⟨List.mem_cons_of_mem x hin, fun id hid => ?_⟩
          obtain ⟨⟨n, hn, hnid⟩, hgone⟩ := hids id hid
          exact ⟨⟨n, (List.mem_filter.mp hn).1, hnid⟩, hgone⟩
      · rename_i hok
        rw [if_neg hok]
        exact (ih hh).imp_left (List.mem_cons_of_mem x)

/-- What a host of etcd needs to come past the removal of its member: an address, and no two members
to be found by it. -/
def Removal.Passes (p : Removal) (ms : List Member) (h : Host IPv4) : Prop :=
  p.inEtcd h = true → ∃ a, nodeIp h (p.removeNodeIp h) = some a ∧ (found ms a).length ≤ 1

theorem mem_reached : h ∈ p.reached w ↔ h ∈ p.hosts ∧ w.reach h = true ∧ p.hasNodeIp h = true := by
  rw [Removal.reached, List.mem_filter, Bool.and_eq_true]

theorem etcdMemberId_of_answered (hw : w.Answered) (hetcd : p.inEtcd h = true) :
    p.etcdMemberId w ms h = (nodeIp h (p.removeNodeIp h)).bind (removeEtcdMember ms) := by
  rw [Removal.etcdMemberId, hetcd, hw h]
  rfl

theorem passes_of_left (hw : w.Answered) (hh : h ∈ (removeEtcdNodes p w ms).2) :
    h ∈ p.hosts ∧ p.Passes ms h := by
  obtain ⟨hreached, hids⟩ := removeMembers_left hh
  obtain ⟨hmem, -, hip⟩ := mem_reached.mp hreached
  refine ⟨hmem, fun hetcd => ?_⟩
  rw [Removal.hasNodeIp, hetcd] at hip
  obtain ⟨a, ha⟩ := Option.isSome_iff_exists.mp (by simpa using hip)
  refine ⟨a, ha, ?_⟩
  cases hf : found ms a with
  | nil => simp
  | cons m l =>
    cases l with
    | nil => simp
    | cons n l =>
      -- several ids together are not the id of a member
      obtain ⟨t, ht, hnewline⟩ := removeEtcdMember_of_found_two ms a m n l hf
      obtain ⟨⟨x, -, hx⟩, -⟩ := hids t <| by
        rw [etcdMemberId_of_answered hw hetcd, ha, Option.bind_some, ht]
      exact absurd (hx ▸ hnewline) (x.id.not_mem_of_not_alphanum '\n' (by decide))

/-- The id that is looked up on a host is that of the member which alone is found. -/
theorem etcdMemberId_eq_iff (hw : w.Answered) (hms : Sound ms) (hetcd : p.inEtcd h = true) {m : Member}
    (hm : m ∈ ms) : p.etcdMemberId w ms h = some m.id.text ↔ FoundAlone h (p.removeNodeIp h) ms m := by
  have hspec := mem_removeNode hms h (p.removeNodeIp h) m
  rw [removeNode] at hspec
  rw [etcdMemberId_of_answered hw hetcd]
  cases hid : (nodeIp h (p.removeNodeIp h)).bind (removeEtcdMember ms) with
  | none =>
    rw [hid] at hspec
    simpa [hm] using hspec
  | some t =>
    rw [hid] at hspec
    simp only [memberRemove, List.mem_filter, hm, true_and, decide_eq_true_iff, ne_eq, not_iff_not] at hspec
    rw [← hspec, Option.some.injEq, eq_comm]

/-- With no removal refused the members stay that no host has looked up. -/
theorem mem_removeMembers (hw : ∀ h, w.memberRemove h = true) (hs : List (Host IPv4)) (ms : List Member)
    (m : Member) : m ∈ (removeMembers w ids hs ms).1 ↔ m ∈ ms ∧ ∀ h ∈ hs, ids h ≠ some m.id.text := by
  induction hs generalizing ms with
  | nil => simp [removeMembers]
  | cons x hs ih =>
    rw [removeMembers, List.forall_mem_cons]
    cases ids x with
    | none => simp [ih]
    | some t =>
      dsimp only
      rw [hw, Bool.true_and]
      split
      · rw [ih, memberRemove, List.mem_filter, decide_eq_true_iff, and_assoc, Ne, Ne, Option.some.injEq,
          eq_comm]
      · rename_i hno
        have hother : m ∈ ms → some t ≠ some m.id.text := by
          intro hm he
          refine hno (List.any_eq_true.mpr ⟨m, hm, ?_⟩)
          simpa using (Option.some.inj he).symm
        rw [ih]
        exact ⟨fun h => ⟨h.1, hother h.1, h.2⟩, fun h => ⟨h.1, h.2.2⟩⟩

theorem mem_wiped_leave (s : State) : h ∈ (leave p w s).wiped ↔
    h ∈ s.wiped ∨ (p.resetNodes = true ∧ h ∈ (removeEtcdNodes p w s.members).2) := by
  rw [leave, List.mem_append]
  cases p.resetNodes <;> simp

theorem leave_members (s : State) : (leave p w s).members = (removeEtcdNodes p w s.members).1 := rfl

theorem not_mem_nodes_leave {n : String} (s : State) (hn : n ∈ s.nodes) : n ∉ (leave p w s).nodes ↔
    ∃ x ∈ (removeEtcdNodes p w s.members).2, p.deletes w x = true ∧ p.nodeName x = n := by
  rw [leave, List.mem_filter]
  simp [hn, and_assoc]

end Members

end Kubespray.RemoveNode

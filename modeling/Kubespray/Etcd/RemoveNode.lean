import Kubespray.Etcd.Member

/-! Removal of a node from the etcd cluster (roles/remove-node/remove-etcd-node):
the member id is looked up by searching the printed list for the node's address. -/
namespace Kubespray.Etcd
open Grep

/-- Lookup etcd member id: `etcdctl member list | grep node_ip | cut -d, -f1`. -/
def lookupEtcdMemberId (ms : List Member) (nodeIp : IPv4) : String :=
  "\n".intercalate (cutFirstField (grep nodeIp.exploded (memberList ms)))

/-- Remove etcd member from cluster: what is handed to `etcdctl member remove`,
none when the task is skipped. -/
def removeEtcdMember (ms : List Member) (nodeIp : IPv4) : Option String :=
  let etcdMemberId := lookupEtcdMemberId ms nodeIp
  if etcdMemberId.length > 0 then some etcdMemberId else none

theorem cutFirstField_line (m : Member) : cutFirstField [m.line] = [m.id.text] := by
  have hid : ∀ c ∈ m.id.text.toList, (decide (c ≠ ',')) = true := by
    intro c hc
    have hne : c ≠ ',' := fun he => m.id.not_mem_of_not_alphanum ',' (by decide) (he ▸ hc)
    simpa using hne
  simp only [cutFirstField, List.map_cons, List.map_nil, Member.line, String.append_assoc,
    String.toList_append]
  rw [List.takeWhile_append_of_pos hid]
  simp

def found (ms : List Member) (nodeIp : IPv4) : List Member :=
  ms.filter fun m => Occurs nodeIp.exploded m.line

theorem grep_memberList (ms : List Member) (nodeIp : IPv4) :
    grep nodeIp.exploded (memberList ms) = (found ms nodeIp).map Member.line := by
  rw [grep, memberList, found, List.filter_map]
  refine congrArg (List.map Member.line) (List.filter_congr fun m _ => ?_)
  rw [Function.comp, Bool.eq_iff_iff, search_iff_occurs, decide_eq_true_iff]

theorem cutFirstField_map_line (ms : List Member) :
    cutFirstField (ms.map Member.line) = ms.map (·.id.text) := by
  induction ms with
  | nil => rfl
  | cons m ms ih =>
    have h := cutFirstField_line m
    simp only [cutFirstField, List.map_cons, List.map_nil, List.cons.injEq, and_true] at h ih ⊢
    exact ⟨h, ih⟩

theorem lookupEtcdMemberId_eq (ms : List Member) (nodeIp : IPv4) :
    lookupEtcdMemberId ms nodeIp = "\n".intercalate ((found ms nodeIp).map (·.id.text)) := by
  rw [lookupEtcdMemberId, grep_memberList, cutFirstField_map_line]

theorem removeEtcdMember_of_found_nil (ms : List Member) (a : IPv4) (h : found ms a = []) :
    removeEtcdMember ms a = none := by
  simp [removeEtcdMember, lookupEtcdMemberId_eq, h]

theorem removeEtcdMember_of_found_one (ms : List Member) (a : IPv4) (m : Member) (h : found ms a = [m]) :
    removeEtcdMember ms a = some m.id.text := by
  have hp : 0 < m.id.text.length := by
    rw [Nat.pos_iff_ne_zero]
    intro h0
    exact m.id.nonempty (String.length_eq_zero_iff.mp h0)
  simp [removeEtcdMember, lookupEtcdMemberId_eq, h, hp]

/-- Several finds are handed over together, one to a line. -/
theorem removeEtcdMember_of_found_two (ms : List Member) (a : IPv4) (m n : Member) (l : List Member)
    (h : found ms a = m :: n :: l) :
    ∃ t, removeEtcdMember ms a = some t ∧ '\n' ∈ t.toList := by
  have ht : lookupEtcdMemberId ms a =
      m.id.text ++ "\n" ++ "\n".intercalate ((n :: l).map (·.id.text)) := by
    rw [lookupEtcdMemberId_eq, h, List.map_cons, List.map_cons, String.intercalate_cons_cons]
  have hn : '\n' ∈ (lookupEtcdMemberId ms a).toList := by simp [ht]
  have hp : 0 < (lookupEtcdMemberId ms a).length := by
    rw [← String.length_toList]
    exact List.length_pos_of_mem hn
  exact ⟨lookupEtcdMemberId ms a, by simp [removeEtcdMember, hp], hn⟩

theorem removeEtcdMember_of_found_ne_nil (ms : List Member) (a : IPv4) (h : found ms a ≠ []) :
    ∃ t, removeEtcdMember ms a = some t := by
  cases hf : found ms a with
  | nil => exact absurd hf h
  | cons m l =>
    cases l with
    | nil => exact ⟨_, removeEtcdMember_of_found_one ms a m hf⟩
    | cons n l =>
      obtain ⟨t, ht, _⟩ := removeEtcdMember_of_found_two ms a m n l hf
      exact ⟨t, ht⟩

theorem exists_two_of_mem_of_ne {α : Type*} {l : List α} {a b : α} (ha : a ∈ l) (hb : b ∈ l)
    (hne : a ≠ b) : ∃ x y ys, l = x :: y :: ys := by
  cases l with
  | nil => simp at ha
  | cons x l =>
    cases l with
    | nil =>
      have hax : a = x := by simpa using ha
      have hbx : b = x := by simpa using hb
      exact absurd (hax.trans hbx.symm) hne
    | cons y ys => exact ⟨x, y, ys, rfl⟩

/-- A member list with distinct ids and no address shared by two members. -/
structure MemberList where
  members : List Member
  ids_nodup : (members.map Member.id).Nodup
  hosts_disjoint : members.Pairwise fun m n => ∀ a ∈ m.hosts, a ∉ n.hosts

/-- Two members never share an address, so owners found are one owner. -/
theorem found_eq_singleton (l : MemberList) (a : IPv4) (o : Member)
    (ho : o ∈ found l.members a) (hall : ∀ m ∈ found l.members a, a ∈ m.hosts) :
    found l.members a = [o] := by
  have hp : (found l.members a).Pairwise fun m n => ∀ x ∈ m.hosts, x ∉ n.hosts :=
    l.hosts_disjoint.filter _
  cases hf : found l.members a with
  | nil => simp [hf] at ho
  | cons x xs =>
    rw [hf] at ho hall hp
    have hxs : xs = [] := by
      rw [List.eq_nil_iff_forall_not_mem]
      intro y hy
      exact (List.pairwise_cons.mp hp).1 y hy a (hall x (by simp))
        (hall y (List.mem_cons_of_mem x hy))
    subst hxs
    have hox : o = x := by simpa using ho
    rw [hox]

/-- The id handed to `member remove` is that of the member with the address, and
none is handed over when no member has it. -/
def RemovesOwner (ms : List Member) (nodeIp : IPv4) : Prop :=
  (∀ m ∈ ms, nodeIp ∈ m.hosts → removeEtcdMember ms nodeIp = some m.id.text) ∧
  ((∀ m ∈ ms, nodeIp ∉ m.hosts) → removeEtcdMember ms nodeIp = none)

/-- The lookup finds the owner alone exactly when the address occurs, with any
character for its dots, in no line of a member at another address. -/
theorem removesOwner_iff (l : MemberList) (nodeIp : IPv4) :
    RemovesOwner l.members nodeIp ↔
      ∀ m ∈ l.members, nodeIp ∉ m.hosts → ¬ Occurs nodeIp.exploded m.line := by
  have hmem : ∀ m, m ∈ found l.members nodeIp ↔ m ∈ l.members ∧ Occurs nodeIp.exploded m.line := by
    intro m
    simp [found]
  constructor
  · intro hfacts
    obtain ⟨howner, hnone⟩ := hfacts
    intro m hm hout hocc
    have hf : m ∈ found l.members nodeIp := (hmem m).mpr ⟨hm, hocc⟩
    by_cases hex : ∃ o ∈ l.members, nodeIp ∈ o.hosts
    · obtain ⟨o, ho, hoa⟩ := hex
      have hof : o ∈ found l.members nodeIp := (hmem o).mpr ⟨ho, o.occurs_line nodeIp hoa⟩
      have hne : m ≠ o := fun he => hout (he ▸ hoa)
      obtain ⟨x, y, ys, hxy⟩ := exists_two_of_mem_of_ne hf hof hne
      obtain ⟨t, ht, hn⟩ := removeEtcdMember_of_found_two l.members nodeIp x y ys hxy
      have hid : t = o.id.text := by simpa [ht] using howner o ho hoa
      exact o.id.not_mem_of_not_alphanum '\n' (by decide) (hid ▸ hn)
    · have hno : ∀ o ∈ l.members, nodeIp ∉ o.hosts := fun o ho ha => hex ⟨o, ho, ha⟩
      obtain ⟨t, ht⟩ := removeEtcdMember_of_found_ne_nil l.members nodeIp (List.ne_nil_of_mem hf)
      simp [hnone hno] at ht
  · intro hother
    have howner : ∀ m ∈ found l.members nodeIp, nodeIp ∈ m.hosts := by
      intro m hm
      obtain ⟨hml, hocc⟩ := (hmem m).mp hm
      by_contra hout
      exact hother m hml hout hocc
    constructor
    · intro o ho hoa
      have hof : o ∈ found l.members nodeIp := (hmem o).mpr ⟨ho, o.occurs_line nodeIp hoa⟩
      exact removeEtcdMember_of_found_one l.members nodeIp o
        (found_eq_singleton l nodeIp o hof howner)
    · intro hno
      refine removeEtcdMember_of_found_nil l.members nodeIp ?_
      rw [List.eq_nil_iff_forall_not_mem]
      intro m hm
      exact hno m ((hmem m).mp hm).1 (howner m hm)

/-- What an earlier removal of 10.0.0.1 left: two members whose addresses start
with the text of the removed one. -/
def rerunMembers : MemberList where
  members :=
    [{ id := ⟨"ade526d28b1f92f7", by decide, by decide⟩, status := "started", name := "etcd2",
       peerURL := ⟨.ofOctets 10 0 0 10, 2380⟩, clientURL := some ⟨.ofOctets 10 0 0 10, 2379⟩,
       learner := false },
     { id := ⟨"d282ac2ce600c1ce", by decide, by decide⟩, status := "started", name := "etcd3",
       peerURL := ⟨.ofOctets 10 0 0 20, 2380⟩, clientURL := some ⟨.ofOctets 10 0 0 20, 2379⟩,
       learner := false }]
  ids_nodup := by decide
  hosts_disjoint := by decide

/-- The rerun removes the healthy member at 10.0.0.10. -/
theorem rerun_removes_other : ¬ RemovesOwner rerunMembers.members (.ofOctets 10 0 0 1) := by
  intro h
  have hr : removeEtcdMember rerunMembers.members (.ofOctets 10 0 0 1) =
    some "ade526d28b1f92f7" := by decide
  have hn := h.2 (by decide)
  simp [hr] at hn

end Kubespray.Etcd

import Kubespray.Lib.OrderedDict
import Kubespray.Lib.Rounds
import Kubespray.Lib.Tasks

/-! update-node.yml of the role network_plugin/calico/rr, which includes itself where its block
fails, and counts the attempts in a fact that outlives the file. -/
namespace Kubespray.NetworkPlugin
open Playbook Rounds

/-- A node object of calico: what the tasks write of it, and the rest. -/
structure CalicoNode (Other : Type) where
  labels : OrderedDict String String
  routeReflectorClusterID : Option String
  other : Other

structure Settings where
  calicoRrId : Option String
  clusterId : String

/-- The facts of the host, and its node object in the datastore. -/
structure Reflector (Other : Type) where
  retryCount : Option Nat
  node : CalicoNode Other
  calicoRrNode : Option (CalicoNode Other)
  calicoRrNodePatched : Option (CalicoNode Other)

/-- How the tasks of the block end; those with retries, at their last try. -/
structure Attempt where
  label : Outcome
  fetch : Outcome
  patch : Outcome
  configure : Outcome

section Tasks
variable {Other : Type} (st : Settings)

def CalicoNode.label (id : Option String) (n : CalicoNode Other) : CalicoNode Other :=
  match id with
  | none => n
  | some id => { n with labels := n.labels.setItem "calico-rr-id" id }

/-- `combine({ 'spec': { 'bgp': { 'routeReflectorClusterID': cluster_id }}}, recursive=True)` -/
def CalicoNode.combine (clusterId : String) (n : CalicoNode Other) : CalicoNode Other :=
  { n with routeReflectorClusterID := some clusterId }

/-- `0 if retry_count is undefined else retry_count|int + 1` -/
def nextCount (retryCount : Option Nat) : Nat := retryCount.elim 0 (· + 1)

/-- Set the retry count. -/
def setRetryCount (s : Reflector Other) : Option (Reflector Other) :=
  some { s with retryCount := some (nextCount s.retryCount) }

/-- Set label for route reflector. -/
def setLabel (s : Reflector Other) : Option (Reflector Other) :=
  some { s with node := s.node.label st.calicoRrId }

/-- Fetch current node object. -/
def fetchNode (s : Reflector Other) : Option (Reflector Other) :=
  some { s with calicoRrNode := some s.node }

/-- Set route reflector cluster ID. -/
def patchNode (s : Reflector Other) : Option (Reflector Other) :=
  s.calicoRrNode.map fun n => { s with calicoRrNodePatched := some (n.combine st.clusterId) }

/-- Configure route reflector. -/
def configureNode (s : Reflector Other) : Option (Reflector Other) :=
  s.calicoRrNodePatched.map fun n => { s with node := n }

/-- The tasks of the block behind the one that sets the count. -/
def commands (a : Attempt) : List (Outcome × (Reflector Other → Option (Reflector Other))) :=
  [(a.label.given st.calicoRrId.isSome, setLabel st), (a.fetch, fetchNode), (a.patch, patchNode st),
    (a.configure, configureNode)]

def blockTasks (a : Attempt) : List (Action (Reflector Other)) :=
  perform .ok setRetryCount :: (commands st a).map fun c => perform c.1 c.2

/-- The block, and the rescue section up to the include of the file itself. -/
def attempt (attempts : Nat → Attempt) (i : Nat) (s : Reflector Other) :
    Round (Reflector Other) (Ended (Reflector Other)) :=
  match inOrder (blockTasks st (attempts i)) s with
  | .failed s' => if s'.retryCount.getD 0 = 10 then .ends (.failed s') else .again s'
  | e => .ends e

/-- How the file ends and after how many attempts, where `fuel` of them are enough. -/
def updateNode (attempts : Nat → Attempt) (fuel : Nat) (s : Reflector Other) :
    Option (Ended (Reflector Other) × Nat) :=
  run (attempt st attempts) fuel 0 s

end Tasks

section Attempts
variable {Other : Type} (st : Settings)

def Attempt.outcomes (a : Attempt) : List Outcome :=
  [a.label.given st.calicoRrId.isSome, a.fetch, a.patch, a.configure]

/-- A task of the block fails. -/
def Attempt.Fails (a : Attempt) : Prop :=
  ∃ applied, (a.outcomes st).find? (· ≠ .ok) = some (.failed applied)

/-- The node object as the block is to leave it. -/
def configured (n : CalicoNode Other) : CalicoNode Other :=
  (n.label st.calicoRrId).combine st.clusterId

theorem configured_label (n : CalicoNode Other) :
    configured st (n.label st.calicoRrId) = configured st n := by
  cases hid : st.calicoRrId with
  | none => rfl
  | some id => simp [configured, CalicoNode.label, hid, OrderedDict.setItem_setItem]

theorem configured_configured (n : CalicoNode Other) :
    configured st (configured st n) = configured st n := by
  have hcombine : configured st (configured st n) = configured st (n.label st.calicoRrId) := by
    cases hid : st.calicoRrId <;> simp [configured, CalicoNode.label, CalicoNode.combine, hid]
  rw [hcombine, configured_label]

theorem block_spec (a : Attempt) (s : Reflector Other) : ∃ t : Reflector Other,
    t.retryCount = some (nextCount s.retryCount) ∧ configured st t.node = configured st s.node ∧
      inOrder (blockTasks st a) s = .upTo ((a.outcomes st).find? (· ≠ .ok)) t ∧
        ((∀ o ∈ a.outcomes st, o = .ok) → t.node = configured st s.node) := by
  have hpath : Path (commands st a) { s with retryCount := some (nextCount s.retryCount) } _ :=
    .cons rfl (.cons rfl (.cons rfl (.cons rfl .nil)))
  obtain ⟨t, ht, hend, hlast⟩ := hpath.inOrder_eq
  have hnode : t.retryCount = some (nextCount s.retryCount) ∧ (t.node = s.node ∨
      t.node = s.node.label st.calicoRrId ∨ t.node = configured st s.node) := by
    simp only [List.mem_cons, List.not_mem_nil, or_false] at ht
    rcases ht with rfl | rfl | rfl | rfl | rfl
    · exact ⟨rfl, .inl rfl⟩
    · exact ⟨rfl, .inr (.inl rfl)⟩
    · exact ⟨rfl, .inr (.inl rfl)⟩
    · exact ⟨rfl, .inr (.inl rfl)⟩
    · exact ⟨rfl, .inr (.inr rfl)⟩
  refine ⟨t, hnode.1, ?_, hend, fun hall => ?_⟩
  · rcases hnode.2 with h | h | h
    · rw [h]
    · rw [h, configured_label]
    · rw [h, configured_configured]
  · have hfinal := hlast fun c hc => hall c.1 (List.mem_map_of_mem hc)
    rw [hfinal]
    rfl

theorem attempt_of_fails {attempts : Nat → Attempt} {i : Nat} (h : (attempts i).Fails st)
    (s : Reflector Other) : ∃ t : Reflector Other, t.retryCount = some (nextCount s.retryCount) ∧
      configured st t.node = configured st s.node ∧
        attempt st attempts i s = if nextCount s.retryCount = 10 then .ends (.failed t) else .again t := by
  obtain ⟨t, hcount, hnode, hend, -⟩ := block_spec st (attempts i) s
  obtain ⟨applied, hfirst⟩ := h
  refine ⟨t, hcount, hnode, ?_⟩
  rw [attempt, hend, hfirst]
  simp only [Ended.upTo, hcount, Option.getD_some]

/-- An attempt that does not fail is the last one. -/
theorem attempt_of_not_fails {attempts : Nat → Attempt} {i : Nat} (h : ¬ (attempts i).Fails st)
    (s : Reflector Other) : ∃ e, attempt st attempts i s = .ends e ∧ (∀ s', e ≠ .failed s') ∧
      ∀ s', e = .completed s' → s'.node = configured st s.node := by
  obtain ⟨t, -, -, hend, hnode⟩ := block_spec st (attempts i) s
  rw [attempt, hend]
  cases hfirst : ((attempts i).outcomes st).find? (· ≠ .ok) with
  | none =>
    have hall : ∀ o ∈ (attempts i).outcomes st, o = .ok := by
      simpa using List.find?_eq_none.mp hfirst
    refine ⟨.completed t, rfl, fun s' => nofun, fun s' hs' => ?_⟩
    obtain rfl := Ended.completed.inj hs'
    exact hnode hall
  | some o =>
    cases o with
    | ok => exact absurd (List.find?_some hfirst) (by decide)
    | failed applied => exact absurd ⟨applied, hfirst⟩ h
    | aborted applied => exact ⟨.aborted t, rfl, fun s' => nofun, fun s' => nofun⟩

end Attempts

section Retry
variable {Other : Type} (st : Settings) (attempts : Nat → Attempt) (s : Reflector Other)

/-- The count that attempt `i` sets. -/
def countAt (start : Option Nat) (i : Nat) : Nat := nextCount start + i

/-- Attempt `i` starts in `t`, all before it having failed, none of them at the limit. -/
structure Comes (i : Nat) (t : Reflector Other) : Prop where
  earlier : ∀ j < i, (attempts j).Fails st ∧ countAt s.retryCount j ≠ 10
  count : nextCount t.retryCount = countAt s.retryCount i
  node : configured st t.node = configured st s.node

theorem Comes.again {i : Nat} {t t' : Reflector Other} (h : Comes st attempts s i t)
    (hround : attempt st attempts i t = .again t') : Comes st attempts s (i + 1) t' := by
  by_cases hfails : (attempts i).Fails st
  · obtain ⟨u, hu, hnode, hattempt⟩ := attempt_of_fails st hfails t
    rw [hattempt, h.count] at hround
    split at hround
    case isTrue => cases hround
    case isFalse hlimit =>
      obtain rfl := Round.again.inj hround
      refine ⟨fun j hj => ?_, ?_, hnode.trans h.node⟩
      · cases Nat.lt_succ_iff_lt_or_eq.mp hj with
        | inl hlt => exact h.earlier j hlt
        | inr heq => exact heq ▸ ⟨hfails, hlimit⟩
      · rw [hu, nextCount, Option.elim_some, h.count, countAt, countAt]
        omega
  · obtain ⟨e, hends, -⟩ := attempt_of_not_fails st hfails t
    rw [hends] at hround
    cases hround

theorem comes_of_before {i : Nat} {t : Reflector Other}
    (h : before (attempt st attempts) s i = some t) : Comes st attempts s i t := by
  have hstart : Comes st attempts s 0 s := ⟨fun j hj => absurd hj j.not_lt_zero, rfl, rfl⟩
  exact before_invariant hstart (fun _ _ _ hc => hc.again) i t h

/-- How a use of the file ends: in its last attempt, which goes on no further. -/
theorem updateNode_eq_some {fuel k : Nat} {e : Ended (Reflector Other)}
    (h : updateNode st attempts fuel s = some (e, k)) : ∃ i t, k = i + 1 ∧
      Comes st attempts s i t ∧ attempt st attempts i t = .ends e := by
  obtain ⟨i, t, -, hk, ht, hends⟩ := (run_eq_some_iff fuel s e k).mp h
  exact ⟨i, t, hk, comes_of_before st attempts s ht, hends⟩

theorem updateNode_ends_iff : (∃ fuel, (updateNode st attempts fuel s).isSome) ↔
    ∃ i, ¬ (attempts i).Fails st ∨ countAt s.retryCount i = 10 := by
  constructor
  · rintro ⟨fuel, h⟩
    obtain ⟨⟨e, k⟩, hrun⟩ := Option.isSome_iff_exists.mp h
    obtain ⟨i, t, -, ht, hends⟩ := updateNode_eq_some st attempts s hrun
    refine ⟨i, or_iff_not_imp_left.mpr fun hfails => ?_⟩
    obtain ⟨u, -, -, hattempt⟩ := attempt_of_fails st (not_not.mp hfails) t
    by_contra hlimit
    rw [hattempt, ht.count, if_neg hlimit] at hends
    cases hends
  · rintro ⟨i, hi⟩
    refine (ends_or_reaches (attempt st attempts) s).resolve_right fun hall => ?_
    obtain ⟨t, ht⟩ := hall (i + 1)
    obtain ⟨hfails, hlimit⟩ := (comes_of_before st attempts s ht).earlier i (Nat.lt_succ_self i)
    exact hi.elim (fun h => h hfails) hlimit

/-- Where the file completes the node object is as it is to be. -/
theorem configured_of_completed {fuel k : Nat} {s' : Reflector Other}
    (h : updateNode st attempts fuel s = some (.completed s', k)) :
    s'.node = configured st s.node := by
  obtain ⟨i, t, -, ht, hends⟩ := updateNode_eq_some st attempts s h
  by_cases hfails : (attempts i).Fails st
  · obtain ⟨u, -, -, hattempt⟩ := attempt_of_fails st hfails t
    rw [hattempt] at hends
    split at hends <;> cases hends
  · obtain ⟨e, he, -, hcompleted⟩ := attempt_of_not_fails st hfails t
    obtain rfl := Round.ends.inj (he.symm.trans hends)
    exact (hcompleted s' rfl).trans ht.node

/-- What the retry is for. -/
structure RetryEnds : Prop where
  ends : ∃ fuel, (updateNode st attempts fuel s).isSome
  fails : ∀ fuel e k, updateNode st attempts fuel s = some (e, k) →
    ((∃ s', e = .failed s') ↔ ∀ i < k, (attempts i).Fails st)
  bounded : s.retryCount = none → ∀ fuel e k, updateNode st attempts fuel s = some (e, k) → k ≤ 11

/-- The host fails exactly when all attempts that were made did. -/
theorem failed_iff {fuel k : Nat} {e : Ended (Reflector Other)}
    (h : updateNode st attempts fuel s = some (e, k)) :
    (∃ s', e = .failed s') ↔ ∀ i < k, (attempts i).Fails st := by
  obtain ⟨i, t, rfl, ht, hends⟩ := updateNode_eq_some st attempts s h
  constructor
  · rintro ⟨s', rfl⟩ j hj
    cases Nat.lt_succ_iff_lt_or_eq.mp hj with
    | inl hlt => exact (ht.earlier j hlt).1
    | inr heq =>
      subst heq
      by_contra hfails
      obtain ⟨e, he, hno, -⟩ := attempt_of_not_fails st hfails t
      exact hno s' (Round.ends.inj (he.symm.trans hends))
  · intro hall
    obtain ⟨u, -, -, hattempt⟩ := attempt_of_fails st (hall i (Nat.lt_succ_self i)) t
    rw [hattempt] at hends
    split at hends
    · exact ⟨u, (Round.ends.inj hends).symm⟩
    · cases hends

theorem attempts_le {fuel k : Nat} {e : Ended (Reflector Other)} (hnone : s.retryCount = none)
    (h : updateNode st attempts fuel s = some (e, k)) : k ≤ 11 := by
  obtain ⟨i, t, rfl, ht, -⟩ := updateNode_eq_some st attempts s h
  by_contra hlt
  exact (ht.earlier 10 (by omega)).2 (by rw [hnone]; rfl)

/-- It ends when it starts below the limit, or some attempt goes better. -/
theorem retryEnds_iff : RetryEnds st attempts s ↔
    (∀ n, s.retryCount = some n → n < 10) ∨ ∃ i, ¬ (attempts i).Fails st := by
  have hlimit : (∃ i, countAt s.retryCount i = 10) ↔ ∀ n, s.retryCount = some n → n < 10 := by
    cases hcount : s.retryCount with
    | none => exact ⟨fun _ n => nofun, fun _ => ⟨10, rfl⟩⟩
    | some n =>
      simp only [countAt, nextCount, Option.elim_some, Option.some.injEq]
      constructor
      · rintro ⟨i, hi⟩ m rfl
        omega
      · intro h
        exact ⟨9 - n, by have := h n rfl; omega⟩
  have hends := updateNode_ends_iff st attempts s
  rw [exists_or, hlimit, or_comm] at hends
  rw [← hends]
  exact ⟨fun h => h.ends, fun h => ⟨h, fun _ _ _ hrun => failed_iff st attempts s hrun,
    fun hnone _ _ _ hrun => attempts_le st attempts s hnone hrun⟩⟩

/-- The states of the host that earlier uses of the file leave in a run. -/
inductive Left : Reflector Other → Prop
  | start {s : Reflector Other} : s.retryCount = none → Left s
  | use {s s' : Reflector Other} {attempts : Nat → Attempt} {fuel k : Nat} : Left s →
      updateNode st attempts fuel s = some (.completed s', k) → Left s'

theorem use_of_ok (attempts : Nat → Attempt) (h : ∀ o ∈ (attempts 0).outcomes st, o = .ok)
    (s : Reflector Other) : ∃ s' : Reflector Other, s'.retryCount = some (nextCount s.retryCount) ∧
      updateNode st attempts 1 s = some (.completed s', 1) := by
  obtain ⟨t, hcount, -, hend, -⟩ := block_spec st (attempts 0) s
  have hnone : ((attempts 0).outcomes st).find? (· ≠ .ok) = none :=
    List.find?_eq_none.mpr fun o ho => by simpa using h o ho
  refine ⟨t, hcount, ?_⟩
  rw [updateNode, run, attempt, hend, hnone]
  rfl

/-- Uses that go well at once leave every count. -/
theorem left_count (n : Nat) (node : CalicoNode Other) :
    ∃ s : Reflector Other, Left st s ∧ s.retryCount = some n := by
  have hok : ∀ o ∈ (Attempt.mk .ok .ok .ok .ok).outcomes st, o = .ok := by
    cases hid : st.calicoRrId <;> simp [Attempt.outcomes, Outcome.given, hid]
  induction n with
  | zero =>
    obtain ⟨s', hcount, huse⟩ := use_of_ok st (fun _ => ⟨.ok, .ok, .ok, .ok⟩) hok
      ⟨none, node, none, none⟩
    exact ⟨s', .use (.start rfl) huse, hcount⟩
  | succ n ih =>
    obtain ⟨s, hleft, hs⟩ := ih
    obtain ⟨s', hcount, huse⟩ := use_of_ok st (fun _ => ⟨.ok, .ok, .ok, .ok⟩) hok s
    exact ⟨s', .use hleft huse, by rw [hcount, hs]; rfl⟩

end Retry

/-- The node object cannot be fetched in the first attempts. -/
def failsBefore (limit i : Nat) : Attempt :=
  ⟨.ok, if i < limit then .failed false else .ok, .ok, .ok⟩

def neverFetched (_ : Nat) : Attempt := ⟨.ok, .failed false, .ok, .ok⟩

def exampleSettings : Settings := ⟨some "rr1", "1.0.0.1"⟩

def exampleHost : Reflector Unit := ⟨none, ⟨∅, none, ()⟩, none, none⟩

/-- After a use that goes well at the eleventh attempt another one has no limit. -/
theorem second_use_never_ends : ¬ ∀ (st : Settings) (attempts : Nat → Attempt) (s : Reflector Unit),
    Left st s → RetryEnds st attempts s := by
  intro h
  have huse : updateNode exampleSettings (failsBefore 10) 11 exampleHost =
      some (.completed ⟨some 10, configured exampleSettings exampleHost.node,
        some (exampleHost.node.label (some "rr1")),
        some (configured exampleSettings exampleHost.node)⟩, 11) := rfl
  have hends := (h exampleSettings neverFetched _ (.use (.start rfl) huse)).ends
  obtain ⟨i, hi⟩ := (updateNode_ends_iff _ _ _).mp hends
  have hfails : (neverFetched i).Fails exampleSettings := ⟨false, rfl⟩
  cases hi with
  | inl hno => exact hno hfails
  | inr hcount =>
    simp only [countAt, nextCount, Option.elim_some] at hcount
    omega

end Kubespray.NetworkPlugin

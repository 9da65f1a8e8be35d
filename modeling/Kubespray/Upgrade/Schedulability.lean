import Kubespray.Upgrade.Play

/-! Whether runs of upgrade-cluster.yml leave a node schedulable that was so before them, and only
then. -/
namespace Kubespray.Upgrade
open Playbook

section Conditions
variable (h : HostVars) (r : Run)

/-- The roles between pre-upgrade and post-upgrade. -/
def HostVars.rolesBetween : List String :=
  if h.inControlPlane then
    ["container-engine", "kubernetes/node", "kubernetes/control-plane", "kubernetes/client",
      "kubernetes/node-label", "kubernetes-apps/cluster_roles", "kubernetes-apps"]
  else ["container-engine", "kubernetes/node", "kubernetes/kubeadm", "kubernetes/node-label"]

/-- The tasks before the queries. -/
def Run.firstOutcomes : List Outcome := [r.earlier, r.role "kubespray-defaults",
  r.confirm.given r.upgradeNodeConfirm,
  r.wait.given (!r.upgradeNodeConfirm && r.upgradeNodePauseSeconds ≠ 0)]

/-- The run gets as far as the draining. -/
structure Run.Starts : Prop where
  first : ∀ o ∈ r.firstOutcomes, o = .ok
  ready : r.ready ≠ .aborted
  schedulable : r.schedulable ≠ .aborted

/-- The run decides to cordon the node, which it finds schedulable or not. -/
structure Needs (schedulable : Bool) : Prop where
  starts : r.Starts
  named : h.name ≠ ""
  ready : r.ready = .given
  status : r.readyStatus = "True"
  schedulable : schedulable = true ∨ r.schedulable = .missing

/-- The tasks of the block "Node draining". -/
def Run.drainingOutcomes : List Outcome := [r.cordon,
  r.kubectlVersion.given (r.drainNodes && r.drainPodSelector ≠ ""),
  r.minimumVersion.given (r.drainNodes && r.drainPodSelector ≠ ""),
  r.drain.given r.drainNodes]

def Run.Drains : Prop := r.drainingOutcomes.find? (· ≠ .ok) = none

def Run.DrainFails : Prop := ∃ applied, r.drainingOutcomes.find? (· ≠ .ok) = some (.failed applied)

/-- The rescue section makes the node schedulable. -/
structure UncordonsInRescue : Prop where
  fails : r.DrainFails
  asked : r.upgradeNodeUncordonAfterDrainFailure = true
  applied : r.rescueUncordon.applied = true
  name : h.inventoryHostname = h.node

/-- The run goes on after the rescue section. -/
structure Recovers : Prop where
  fails : r.DrainFails
  uncordon : r.upgradeNodeUncordonAfterDrainFailure = true →
    r.rescueUncordon = .ok ∧ h.inventoryHostname ≠ "" ∧
      (h.inventoryHostname = h.node ∨ (r.others h.inventoryHostname).isSome)
  goesOn : r.upgradeNodeFailIfDrainFails = false

/-- The role post-upgrade makes the node schedulable. -/
structure UncordonsAtEnd : Prop where
  drained : r.Drains ∨ Recovers h r
  roles : ∀ name ∈ h.rolesBetween, r.role name = .ok
  applied : r.uncordon.applied = true

/-- A run that cordons the node makes it schedulable again, and it does not cordon a node that is
not schedulable. -/
def Safe (schedulable : Bool) : Prop := Needs h r schedulable →
  if schedulable then r.cordon.applied = true → UncordonsInRescue h r ∨ UncordonsAtEnd h r
  else ¬ (UncordonsInRescue h r ∨ UncordonsAtEnd h r)

end Conditions

section Stages
variable (h : HostVars) (r : Run)

theorem node_eq_name (hn : h.name ≠ "") : h.node = h.name := if_neg hn

/-- Up to the fact needs_cordoning. -/
def gather : List (Action RunState) :=
  r.firstOutcomes.map noEffect ++ [seeIfReady h r, seeIfSchedulable h r, setIfNeedsCordoning]

/-- After the draining. -/
def remaining : List (Action RunState) :=
  h.rolesBetween.map (fun name => noEffect (r.role name)) ++
    (postUpgrade h r ++ [noEffect r.later])

theorem rolesBetween_noEffect :
    h.rolesBetween.map (fun name => (noEffect (r.role name) : Action RunState)) =
      (h.rolesBetween.map r.role).map noEffect := by
  rw [List.map_map]
  rfl

theorem noEffect_given (c : Bool) (o : Outcome) :
    (only c (noEffect o) : Action RunState) = noEffect (o.given c) := by
  cases c <;> rfl

theorem upgradeCluster_eq (s : RunState) : upgradeCluster h r s =
    (inOrder (gather h r) s).andThen fun s =>
      (nodeDraining h r s).andThen (inOrder (remaining h r)) := by
  have hlist : [noEffect r.earlier] ++
      (if h.inControlPlane then controlPlaneRoles else workerRoles).flatMap (roleTasks h r) ++
        [noEffect r.later] = gather h r ++ (nodeDraining h r :: remaining h r) := by
    cases hc : h.inControlPlane <;>
      simp [hc, gather, remaining, HostVars.rolesBetween, Run.firstOutcomes, controlPlaneRoles,
        workerRoles, roleTasks, preUpgrade, noEffect_given]
  rw [upgradeCluster, hlist, inOrder_append]
  rfl

theorem gather_completed (s : RunState) (hs : r.Starts) :
    ∃ s', inOrder (gather h r) s = .completed s' ∧ s'.cluster = s.cluster ∧
      s'.needsCordoning = some (kubectlGet h (fun _ => r.readyStatus) r.ready s = "True" &&
        kubectlGet h (fun b => if b then "" else "true") r.schedulable s = "") := by
  rw [gather, inOrder_append, inOrder_noEffect_ok hs.first]
  simp only [Ended.andThen, inOrder, seeIfReady, seeIfSchedulable, if_neg hs.ready,
    if_neg hs.schedulable, setIfNeedsCordoning]
  exact ⟨_, rfl, rfl, rfl⟩

theorem gather_stopped (s : RunState) (hs : ¬ r.Starts) :
    ∃ s', (inOrder (gather h r) s).StoppedAt s' ∧ s'.cluster = s.cluster := by
  rw [gather, inOrder_append]
  by_cases hfirst : ∀ o ∈ r.firstOutcomes, o = .ok
  · rw [inOrder_noEffect_ok hfirst]
    by_cases hready : r.ready = .aborted
    · exact ⟨s, by simp [Ended.andThen, inOrder, seeIfReady, hready, Ended.StoppedAt], rfl⟩
    by_cases hsched : r.schedulable = .aborted
    · refine ⟨{ s with kubectlNodeReady := kubectlGet h (fun _ => r.readyStatus) r.ready s }, ?_, rfl⟩
      simp [Ended.andThen, inOrder, seeIfReady, seeIfSchedulable, hready, hsched, Ended.StoppedAt]
    · exact absurd ⟨hfirst, hready, hsched⟩ hs
  · exact ⟨s, (inOrder_noEffect_stopped hfirst s).andThen _, rfl⟩

/-- The fact says that the node needs cordoning exactly when this run is to do so. -/
theorem needsCordoning_iff (schedulable : Bool) (hs : r.Starts) :
    (kubectlGet h (fun _ => r.readyStatus) r.ready (startState h r schedulable) = "True" &&
      kubectlGet h (fun b => if b then "" else "true") r.schedulable
        (startState h r schedulable) = "") = true ↔ Needs h r schedulable := by
  by_cases hn : h.name = ""
  · constructor
    · intro he
      simp [kubectlGet, hn] at he
    · exact fun hneeds => absurd hn hneeds.named
  have hcluster : (startState h r schedulable).cluster h.name = some schedulable := by
    rw [startState, node_eq_name h hn]
    exact Function.update_self _ _ _
  have hready : kubectlGet h (fun _ => r.readyStatus) r.ready (startState h r schedulable) = "True" ↔
      r.ready = .given ∧ r.readyStatus = "True" := by
    by_cases hr : r.ready = .given <;> simp [kubectlGet, hr, hn, hcluster]
  have hsched : kubectlGet h (fun b => if b then "" else "true") r.schedulable
      (startState h r schedulable) = "" ↔ schedulable = true ∨ r.schedulable = .missing := by
    cases hr : r.schedulable with
    | aborted => exact absurd hr hs.schedulable
    | missing => simp [kubectlGet]
    | given => cases schedulable <;> simp [kubectlGet, hn, hcluster]
  rw [Bool.and_eq_true, decide_eq_true_eq, decide_eq_true_eq, hready, hsched]
  constructor
  · intro he
    obtain ⟨⟨hgiven, hstatus⟩, hx⟩ := he
    exact ⟨hs, hn, hgiven, hstatus, hx⟩
  · exact fun hneeds => ⟨⟨hneeds.ready, hneeds.status⟩, hneeds.schedulable⟩

/-- The commands of the block, those that are skipped with no effect. -/
def drainingCommands : List (Outcome × (RunState → Option RunState)) := [
  (r.cordon, kubectlSet h.name false),
  (r.kubectlVersion.given (r.drainNodes && r.drainPodSelector ≠ ""), some),
  (r.minimumVersion.given (r.drainNodes && r.drainPodSelector ≠ ""), some),
  (r.drain.given r.drainNodes, if r.drainNodes then kubectlSet h.name false else some)]

theorem drainingTasks_eq :
    drainingTasks h r = (drainingCommands h r).map fun c => perform c.1 c.2 := by
  simp only [drainingTasks, selectorChecks, noEffect_given, only_perform, drainingCommands]
  rfl

/-- A state after the fact has been set, with the nodes there that were there at the start. -/
structure During (schedulable : Bool) (s : RunState) : Prop where
  node : s.cluster h.node = some schedulable
  others : ∀ name, name ≠ h.node → (s.cluster name).isSome = (r.others name).isSome
  needs : s.needsCordoning = some true

section During
variable {h r} {b : Bool} {s : RunState} (hd : During h r b s)
include hd

theorem During.set (hn : h.name ≠ "") (value : Bool) :
    ∃ s', kubectlSet h.name value s = some s' ∧ During h r value s' := by
  refine ⟨{ s with cluster := Function.update s.cluster h.name (some value) }, ?_, ?_, ?_, hd.needs⟩
  · rw [kubectlSet, if_neg hn, ← node_eq_name h hn, hd.node]
    rfl
  · rw [node_eq_name h hn]
    exact Function.update_self _ _ _
  · intro name hne
    rw [node_eq_name h hn] at hne
    change (Function.update s.cluster h.name (some value) name).isSome = _
    rw [Function.update_of_ne hne]
    exact hd.others name (by rwa [node_eq_name h hn])

/-- Commands on another node leave this one alone. -/
theorem During.set_other {name : String} (hne : name ≠ h.node) {s' : RunState} {value : Bool}
    (hset : kubectlSet name value s = some s') : During h r b s' := by
  rw [kubectlSet] at hset
  split at hset
  · cases hset
  · obtain ⟨old, hold, rfl⟩ := Option.map_eq_some_iff.mp hset
    refine ⟨(Function.update_of_ne (Ne.symm hne) _ _).trans hd.node, fun other hother => ?_, hd.needs⟩
    change (Function.update s.cluster name (some value) other).isSome = _
    by_cases ho : other = name
    · rw [ho, Function.update_self, ← hd.others name hne, hold]
      rfl
    · rw [Function.update_of_ne ho]
      exact hd.others other hother

theorem During.perform_set (hn : h.name ≠ "") (o : Outcome) (value : Bool) :
    During h r (if o.applied then value else b) (perform o (kubectlSet h.name value) s).state := by
  obtain ⟨s', hset, hd'⟩ := hd.set hn value
  rw [state_perform]
  cases o.applied with
  | false => exact hd
  | true => simpa [hset] using hd'

/-- The effect of a task of the block. -/
theorem During.command (hn : h.name ≠ "") (c : Outcome × (RunState → Option RunState))
    (hc : c ∈ drainingCommands h r) : ∃ s', c.2 s = some s' ∧ (During h r b s' ∨ During h r false s') := by
  obtain ⟨s', hset, hd'⟩ := hd.set hn false
  simp only [drainingCommands, List.mem_cons, List.not_mem_nil, or_false] at hc
  obtain rfl | rfl | rfl | rfl := hc
  · exact ⟨s', hset, .inr hd'⟩
  · exact ⟨s, rfl, .inl hd⟩
  · exact ⟨s, rfl, .inl hd⟩
  · cases r.drainNodes with
    | true => exact ⟨s', hset, .inr hd'⟩
    | false => exact ⟨s, rfl, .inl hd⟩

/-- Only an applied cordon changes the node. -/
theorem During.state_draining (hn : h.name ≠ "") :
    During h r (if r.cordon.applied then false else b) (inOrder (drainingTasks h r) s).state := by
  rw [drainingTasks_eq, drainingCommands, List.map_cons, inOrder]
  by_cases hok : r.cordon = .ok
  · obtain ⟨s1, hset1, hd1⟩ := hd.set hn false
    rw [hok, perform_ok hset1]
    -- Nothing after the cordon makes the node schedulable.
    refine Preserves.inOrder (P := During h r false) (fun t ht => ?_) s1 hd1
    obtain ⟨c, hc, rfl⟩ := List.mem_map.mp ht
    refine preserves_perform _ fun t t' ht hset => ?_
    obtain ⟨t2, ht2, hd2⟩ := ht.command hn c (List.mem_cons_of_mem _ hc)
    obtain rfl := Option.some.inj (hset.symm.trans ht2)
    exact hd2.elim id id
  · rw [((perform_stopped hok _ s).andThen _).state_eq]
    exact hd.perform_set hn r.cordon false

theorem During.draining (hn : h.name ≠ "") :
    ∃ s', During h r (if r.cordon.applied then false else b) s' ∧
      inOrder (drainingTasks h r) s = .upTo (r.drainingOutcomes.find? (· ≠ .ok)) s' := by
  have hset : ∀ c ∈ drainingCommands h r, ∀ t, (∃ value, During h r value t) →
      ∃ t', c.2 t = some t' ∧ ∃ value, During h r value t' := by
    intro c hc t ht
    obtain ⟨value, ht⟩ := ht
    obtain ⟨t', ht', hd'⟩ := ht.command hn c hc
    exact ⟨t', ht', hd'.elim (fun hd => ⟨_, hd⟩) fun hd => ⟨_, hd⟩⟩
  have hstate := hd.state_draining hn
  rw [drainingTasks_eq] at hstate ⊢
  obtain ⟨s', -, hend⟩ := inOrder_perform (drainingCommands h r) hset s ⟨b, hd⟩
  rw [hend, Ended.state_upTo] at hstate
  exact ⟨s', hstate, hend⟩

theorem During.set_isSome_iff (name : String) (value : Bool) :
    (∃ s', kubectlSet name value s = some s') ↔
      name ≠ "" ∧ (name = h.node ∨ (r.others name).isSome) := by
  rw [← Option.isSome_iff_exists, kubectlSet]
  by_cases hempty : name = ""
  · simp [hempty]
  by_cases hnode : name = h.node
  · simp [hnode, hd.node]
  · simp [hempty, hnode, ← hd.others name hnode]

/-- Only the uncordon of the rescue section changes the node. -/
theorem During.state_rescue (hn : h.name ≠ "") (hf : r.DrainFails) :
    (UncordonsInRescue h r → During h r true (inOrder (drainingRescue h r) s).state) ∧
      (¬ UncordonsInRescue h r → During h r b (inOrder (drainingRescue h r) s).state) := by
  have hstate : (inOrder (drainingRescue h r) s).state =
      (only r.upgradeNodeUncordonAfterDrainFailure
        (perform r.rescueUncordon (kubectlSet h.inventoryHostname true)) s).state := by
    rw [drainingRescue, inOrder]
    cases only r.upgradeNodeUncordonAfterDrainFailure
        (perform r.rescueUncordon (kubectlSet h.inventoryHostname true)) s with
    | completed s' => cases hc : r.upgradeNodeFailIfDrainFails <;> rfl
    | failed s' => rfl
    | aborted s' => rfl
  rw [hstate]
  cases hasked : r.upgradeNodeUncordonAfterDrainFailure with
  | false => exact ⟨fun hu => by simp [hu.asked] at hasked, fun _ => hd⟩
  | true =>
    rw [only, if_pos rfl, state_perform]
    cases happlied : r.rescueUncordon.applied with
    | false => exact ⟨fun hu => by simp [hu.applied] at happlied, fun _ => hd⟩
    | true =>
      rw [if_pos rfl]
      by_cases hname : h.inventoryHostname = h.node
      · refine ⟨fun _ => ?_, fun hu => absurd ⟨hf, hasked, happlied, hname⟩ hu⟩
        obtain ⟨s', hset, hd'⟩ := hd.set hn true
        rw [hname, node_eq_name h hn, hset]
        exact hd'
      · refine ⟨fun hu => absurd hu.name hname, fun _ => ?_⟩
        cases hset : kubectlSet h.inventoryHostname true s with
        | none => exact hd
        | some s' => exact hd.set_other hname hset

theorem During.rescue_completes_iff (hf : r.DrainFails) :
    (∃ s', inOrder (drainingRescue h r) s = .completed s') ↔ Recovers h r := by
  have hset := hd.set_isSome_iff h.inventoryHostname true
  rw [drainingRescue, inOrder]
  constructor
  · intro hc
    obtain ⟨s', hc⟩ := hc
    cases hfail : r.upgradeNodeFailIfDrainFails with
    | true =>
      rw [hfail] at hc
      cases hu : only r.upgradeNodeUncordonAfterDrainFailure
          (perform r.rescueUncordon (kubectlSet h.inventoryHostname true)) s <;>
        rw [hu] at hc <;> cases hc
    | false =>
      refine ⟨hf, fun hasked => ?_, hfail⟩
      rw [hasked, only, if_pos rfl] at hc
      by_cases hok : r.rescueUncordon = .ok
      · refine ⟨hok, hset.mp ?_⟩
        cases hs : kubectlSet h.inventoryHostname true s with
        | none => simp [hok, perform, hs, Ended.andThen] at hc
        | some s1 => exact ⟨s1, rfl⟩
      · exact absurd hc (((perform_stopped hok _ s).andThen _).ne_completed s')
  · intro hr
    rw [hr.goesOn]
    cases hasked : r.upgradeNodeUncordonAfterDrainFailure with
    | false => exact ⟨s, rfl⟩
    | true =>
      obtain ⟨hok, hthere⟩ := hr.uncordon hasked
      obtain ⟨s1, hs1⟩ := hset.mpr hthere
      rw [only, if_pos rfl, hok, perform_ok hs1]
      exact ⟨s1, rfl⟩

/-- After the roles in between, post-upgrade uncordons the node. -/
theorem During.remaining_eq (hok : ∀ name ∈ h.rolesBetween, r.role name = .ok) :
    inOrder (remaining h r) s =
      (perform r.uncordon (kubectlSet h.name true) s).andThen (inOrder [noEffect r.later]) := by
  rw [remaining, rolesBetween_noEffect, inOrder_append,
    inOrder_noEffect_ok (List.forall_mem_map.mpr hok), Ended.andThen, postUpgrade,
    List.singleton_append, inOrder, hd.needs]
  rfl

/-- Only the uncordon of post-upgrade changes the node, and a run that completes comes to it. -/
theorem During.finish (hn : h.name ≠ "") :
    ((∀ name ∈ h.rolesBetween, r.role name = .ok) ∧ r.uncordon.applied = true →
      (inOrder (remaining h r) s).state.cluster h.node = some true) ∧
    (¬ ((∀ name ∈ h.rolesBetween, r.role name = .ok) ∧ r.uncordon.applied = true) →
      (inOrder (remaining h r) s).state.cluster h.node = some b) ∧
    ((∃ s', inOrder (remaining h r) s = .completed s') →
      (∀ name ∈ h.rolesBetween, r.role name = .ok) ∧ r.uncordon.applied = true) := by
  by_cases hok : ∀ name ∈ h.rolesBetween, r.role name = .ok
  · have hstate := hd.perform_set hn r.uncordon true
    rw [← state_andThen_noEffect _ r.later] at hstate
    rw [hd.remaining_eq hok]
    refine ⟨fun hu => ?_, fun hu => ?_, fun hc => ⟨hok, ?_⟩⟩
    · rw [hu.2] at hstate
      exact hstate.node
    · rw [if_neg fun happlied => hu ⟨hok, happlied⟩] at hstate
      exact hstate.node
    · obtain ⟨s', hc⟩ := hc
      by_contra hno
      have hne : r.uncordon ≠ .ok := fun he => hno (by rw [he]; rfl)
      exact ((perform_stopped hne _ s).andThen _).ne_completed s' hc
  · have hstop := (inOrder_noEffect_stopped (mt List.forall_mem_map.mp hok) s).andThen
      (inOrder (postUpgrade h r ++ [noEffect r.later]))
    rw [remaining, rolesBetween_noEffect, inOrder_append]
    refine ⟨fun hu => absurd hu.1 hok, fun _ => ?_, fun hc => ?_⟩
    · rw [hstop.state_eq]
      exact hd.node
    · obtain ⟨s', hc⟩ := hc
      exact absurd hc (hstop.ne_completed s')

theorem During.nodeDraining_eq : nodeDraining h r s =
    (inOrder (drainingTasks h r) s).orRescue (inOrder (drainingRescue h r)) := by
  rw [nodeDraining, hd.needs]
  rfl

/-- What becomes of the node once the drain has failed. -/
theorem During.rescueAndFinish (hn : h.name ≠ "") (hf : r.DrainFails) (hd' : ¬ r.Drains) :
    (UncordonsInRescue h r ∨ UncordonsAtEnd h r →
      ((inOrder (drainingRescue h r) s).andThen (inOrder (remaining h r))).state.cluster h.node =
        some true) ∧
    (¬ (UncordonsInRescue h r ∨ UncordonsAtEnd h r) →
      ((inOrder (drainingRescue h r) s).andThen (inOrder (remaining h r))).state.cluster h.node =
        some b) ∧
    ((∃ s', (inOrder (drainingRescue h r) s).andThen (inOrder (remaining h r)) = .completed s') →
      UncordonsAtEnd h r) := by
  obtain ⟨htrue, hfalse⟩ := hd.state_rescue hn hf
  by_cases hr : Recovers h r
  · obtain ⟨s3, hs3⟩ := (hd.rescue_completes_iff hf).mpr hr
    have hiff : UncordonsAtEnd h r ↔
        (∀ name ∈ h.rolesBetween, r.role name = .ok) ∧ r.uncordon.applied = true :=
      ⟨fun hu => ⟨hu.roles, hu.applied⟩, fun hu => ⟨.inr hr, hu.1, hu.2⟩⟩
    rw [hs3] at htrue hfalse ⊢
    rw [hiff]
    refine ⟨fun hu => ?_, fun hu => ?_, fun hc => ?_⟩
    · by_cases hend : (∀ name ∈ h.rolesBetween, r.role name = .ok) ∧ r.uncordon.applied = true
      · by_cases hrescue : UncordonsInRescue h r
        · exact ((htrue hrescue).finish hn).1 hend
        · exact ((hfalse hrescue).finish hn).1 hend
      · exact ((htrue (hu.resolve_right hend)).finish hn).2.1 hend
    · exact ((hfalse fun hrescue => hu (.inl hrescue)).finish hn).2.1 fun hend => hu (.inr hend)
    · by_cases hrescue : UncordonsInRescue h r
      · exact ((htrue hrescue).finish hn).2.2 hc
      · exact ((hfalse hrescue).finish hn).2.2 hc
  · obtain ⟨s3, hs3⟩ := (Ended.completed_or_stopped (inOrder (drainingRescue h r) s)).resolve_left
      (mt (hd.rescue_completes_iff hf).mp hr)
    have hnot : ¬ UncordonsAtEnd h r := fun hu => (hu.drained.elim hd' hr)
    rw [hs3.state_eq] at htrue hfalse
    rw [(hs3.andThen _).state_eq, or_iff_left hnot]
    refine ⟨fun hu => (htrue hu).node, fun hu => (hfalse hu).node, fun hc => ?_⟩
    obtain ⟨s', hc⟩ := hc
    exact absurd hc ((hs3.andThen _).ne_completed s')

/-- What becomes of the node from the draining on. -/
theorem During.drainAndFinish (hn : h.name ≠ "") :
    (UncordonsInRescue h r ∨ UncordonsAtEnd h r →
      ((nodeDraining h r s).andThen (inOrder (remaining h r))).state.cluster h.node = some true) ∧
    (¬ (UncordonsInRescue h r ∨ UncordonsAtEnd h r) →
      ((nodeDraining h r s).andThen (inOrder (remaining h r))).state.cluster h.node =
        some (if r.cordon.applied then false else b)) ∧
    ((∃ s', (nodeDraining h r s).andThen (inOrder (remaining h r)) = .completed s') →
      UncordonsAtEnd h r) := by
  obtain ⟨s2, hd2, hend⟩ := hd.draining hn
  rw [hd.nodeDraining_eq, hend]
  cases hfirst : r.drainingOutcomes.find? (· ≠ .ok) with
  | none =>
    -- The drain went well, so that only post-upgrade is left to uncordon the node.
    have hno : ¬ UncordonsInRescue h r := by
      intro hu
      obtain ⟨applied, hf⟩ := hu.fails
      rw [hfirst] at hf
      cases hf
    obtain ⟨htrue, hfalse, hc⟩ := hd2.finish hn
    have hiff : UncordonsAtEnd h r ↔
        (∀ name ∈ h.rolesBetween, r.role name = .ok) ∧ r.uncordon.applied = true :=
      ⟨fun hu => ⟨hu.roles, hu.applied⟩, fun hu => ⟨.inl hfirst, hu.1, hu.2⟩⟩
    rw [or_iff_right hno, hiff]
    exact ⟨htrue, hfalse, hc⟩
  | some o =>
    cases o with
    | ok => simpa using List.find?_some hfirst
    | aborted applied =>
      have hno : ¬ (UncordonsInRescue h r ∨ UncordonsAtEnd h r) := by
        intro hu
        obtain hdrains | ⟨applied', hf⟩ : r.Drains ∨ r.DrainFails :=
          hu.elim (fun hu => .inr hu.fails) fun hu => hu.drained.imp_right fun hr => hr.fails
        · rw [Run.Drains, hfirst] at hdrains
          cases hdrains
        · rw [hfirst] at hf
          cases hf
      refine ⟨fun hu => absurd hu hno, fun _ => hd2.node, fun hc => ?_⟩
      obtain ⟨s', hc⟩ := hc
      cases hc
    | failed applied =>
      have hf : r.DrainFails := ⟨applied, hfirst⟩
      have hdrains : ¬ r.Drains := fun hd => by
        rw [Run.Drains, hfirst] at hd
        cases hd
      exact hd2.rescueAndFinish hn hf hdrains

end During

end Stages

section Run
variable (h : HostVars) (r : Run) (schedulable : Bool)

theorem during_of_needs (hneeds : Needs h r schedulable) :
    ∃ s, inOrder (gather h r) (startState h r schedulable) = .completed s ∧
      During h r schedulable s := by
  obtain ⟨s, hs, hcluster, hfact⟩ :=
    gather_completed h r (startState h r schedulable) hneeds.starts
  rw [(needsCordoning_iff h r schedulable hneeds.starts).mpr hneeds] at hfact
  refine ⟨s, hs, ?_, fun name hne => ?_, hfact⟩
  · rw [hcluster]
    exact Function.update_self _ _ _
  · rw [hcluster]
    exact congrArg Option.isSome (Function.update_of_ne hne _ _)

theorem nodeSchedulable_start : (startState h r schedulable).nodeSchedulable h = schedulable := by
  have hnode : (startState h r schedulable).cluster h.node = some schedulable :=
    Function.update_self _ _ _
  rw [RunState.nodeSchedulable, hnode]
  rfl

/-- A run that is not to cordon the node leaves it alone, wherever it ends. -/
theorem upgrade_of_not_needs (hneeds : ¬ Needs h r schedulable) :
    (upgrade h r schedulable).state.nodeSchedulable h = schedulable := by
  have hstart := nodeSchedulable_start h r schedulable
  rw [upgrade, upgradeCluster_eq]
  by_cases hs : r.Starts
  · obtain ⟨s, hend, hcluster, hfact⟩ := gather_completed h r (startState h r schedulable) hs
    rw [Bool.eq_false_iff.mpr (mt (needsCordoning_iff h r schedulable hs).mp hneeds)] at hfact
    have hskip : nodeDraining h r s = .completed s := by
      rw [nodeDraining, hfact]
      rfl
    rw [hend, Ended.andThen, hskip, Ended.andThen]
    have hkept : Preserves (fun t => t.cluster = s.cluster ∧ t.needsCordoning = some false)
        (inOrder (remaining h r)) := by
      refine Preserves.inOrder fun t ht => ?_
      simp only [remaining, postUpgrade, List.mem_append, List.mem_map, List.mem_singleton] at ht
      obtain ⟨name, -, rfl⟩ | rfl | rfl := ht
      · exact preserves_noEffect _
      · intro u hu
        beta_reduce
        rw [hu.2]
        exact hu
      · exact preserves_noEffect _
    have hsame := (hkept s ⟨rfl, hfact⟩).1
    rw [RunState.nodeSchedulable, hsame, hcluster]
    exact hstart
  · obtain ⟨s, hstop, hcluster⟩ := gather_stopped h r (startState h r schedulable) hs
    rw [(hstop.andThen _).state_eq, RunState.nodeSchedulable, hcluster]
    exact hstart

/-- A run that is to cordon the node: it ends schedulable after an uncordon, and else as the cordon
left it. -/
theorem upgrade_of_needs (hneeds : Needs h r schedulable) :
    (UncordonsInRescue h r ∨ UncordonsAtEnd h r →
      (upgrade h r schedulable).state.nodeSchedulable h = true) ∧
    (¬ (UncordonsInRescue h r ∨ UncordonsAtEnd h r) →
      (upgrade h r schedulable).state.nodeSchedulable h =
        if r.cordon.applied then false else schedulable) ∧
    ((∃ s, upgrade h r schedulable = .completed s) → UncordonsAtEnd h r) := by
  obtain ⟨s, hs, hd⟩ := during_of_needs h r schedulable hneeds
  have heq : upgrade h r schedulable = (nodeDraining h r s).andThen (inOrder (remaining h r)) := by
    rw [upgrade, upgradeCluster_eq, hs]
    rfl
  obtain ⟨htrue, hfalse, hc⟩ := hd.drainAndFinish hneeds.named
  rw [heq]
  refine ⟨fun hu => ?_, fun hu => ?_, hc⟩
  · rw [RunState.nodeSchedulable, htrue hu]
    rfl
  · rw [RunState.nodeSchedulable, hfalse hu]
    rfl

theorem nodeSchedulable_upgrade_iff :
    (upgrade h r schedulable).state.nodeSchedulable h = schedulable ↔ Safe h r schedulable := by
  by_cases hneeds : Needs h r schedulable
  · obtain ⟨htrue, hfalse, -⟩ := upgrade_of_needs h r schedulable hneeds
    rw [Safe, forall_prop_of_true hneeds]
    by_cases hu : UncordonsInRescue h r ∨ UncordonsAtEnd h r
    · rw [htrue hu]
      cases schedulable <;> simp [hu]
    · rw [hfalse hu]
      cases schedulable <;> cases r.cordon.applied <;> simp [hu]
  · rw [upgrade_of_not_needs h r schedulable hneeds]
    exact ⟨fun _ hn => absurd hn hneeds, fun _ => rfl⟩

end Run

section History
variable (h : HostVars)

/-- The node after a history of runs, each of which starts where the one before it ended. -/
def afterRuns (schedulable : Bool) (rs : List Run) : Bool :=
  rs.foldl (fun schedulable r => (upgrade h r schedulable).state.nodeSchedulable h) schedulable

theorem afterRuns_append (schedulable : Bool) (rs qs : List Run) :
    afterRuns h schedulable (rs ++ qs) = afterRuns h (afterRuns h schedulable rs) qs :=
  List.foldl_append

theorem afterRuns_of_safe (schedulable : Bool) (rs : List Run)
    (hs : ∀ r ∈ rs, Safe h r schedulable) : afterRuns h schedulable rs = schedulable := by
  induction rs with
  | nil => rfl
  | cons r rs ih =>
    have hr := (nodeSchedulable_upgrade_iff h r schedulable).mpr (hs r (by simp))
    rw [afterRuns, List.foldl_cons, hr]
    exact ih fun q hq => hs q (List.mem_cons_of_mem r hq)

/-- The node is found as it was at the start in all states of a history exactly when all its runs
are safe for it. -/
theorem afterRuns_iff (schedulable : Bool) (rs : List Run) :
    (∀ qs, qs <+: rs → afterRuns h schedulable qs = schedulable) ↔
      ∀ r ∈ rs, Safe h r schedulable := by
  constructor
  · intro hall r hr
    obtain ⟨qs, ps, rfl⟩ := List.append_of_mem hr
    have hbefore := hall qs (List.prefix_append _ _)
    have hafter := hall (qs ++ [r]) ⟨ps, by simp⟩
    rw [afterRuns_append, hbefore] at hafter
    exact (nodeSchedulable_upgrade_iff h r schedulable).mp hafter
  · intro hs qs hqs
    exact afterRuns_of_safe h schedulable qs fun r hr => hs r (hqs.subset hr)

/-- A run that completes leaves the node as it was, unless it took a node for schedulable that is
not. -/
theorem upgrade_completed_iff (r : Run) (schedulable : Bool)
    (hc : ∃ s, upgrade h r schedulable = .completed s) :
    (upgrade h r schedulable).state.nodeSchedulable h = schedulable ↔
      (schedulable = false → ¬ Needs h r false) := by
  rw [nodeSchedulable_upgrade_iff, Safe]
  have hend := fun hneeds => (upgrade_of_needs h r schedulable hneeds).2.2 hc
  cases schedulable with
  | true => exact ⟨fun _ hfalse => absurd hfalse (by decide), fun _ hneeds _ => .inr (hend hneeds)⟩
  | false =>
    rw [forall_prop_of_true rfl]
    exact ⟨fun hsafe hneeds => hsafe hneeds (.inr (hend hneeds)), fun hno hneeds => absurd hneeds hno⟩

/-- The state after the draining, its rescue section included. -/
def afterDraining (r : Run) (schedulable : Bool) : Ended RunState :=
  (inOrder (gather h r) (startState h r schedulable)).andThen (nodeDraining h r)

theorem afterDraining_iff (r : Run) (schedulable : Bool) (hneeds : Needs h r schedulable)
    (hf : r.DrainFails) (hcordon : r.cordon.applied = true)
    (hasked : r.upgradeNodeUncordonAfterDrainFailure = true) :
    (afterDraining h r schedulable).state.nodeSchedulable h = true ↔
      h.inventoryHostname = h.node ∧ r.rescueUncordon.applied = true := by
  obtain ⟨s, hs, hd⟩ := during_of_needs h r schedulable hneeds
  obtain ⟨s2, hd2, hend⟩ := hd.draining hneeds.named
  obtain ⟨applied, hfirst⟩ := hf
  obtain ⟨htrue, hfalse⟩ := hd2.state_rescue hneeds.named ⟨applied, hfirst⟩
  have heq : afterDraining h r schedulable = inOrder (drainingRescue h r) s2 := by
    rw [afterDraining, hs]
    change nodeDraining h r s = _
    rw [hd.nodeDraining_eq, hend, hfirst]
    rfl
  rw [heq, RunState.nodeSchedulable]
  constructor
  · intro hnode
    by_contra hno
    have hnot : ¬ UncordonsInRescue h r := fun hu => hno ⟨hu.name, hu.applied⟩
    rw [(hfalse hnot).node, hcordon] at hnode
    cases hnode
  · intro hu
    rw [(htrue ⟨⟨applied, hfirst⟩, hasked, hu.2, hu.1⟩).node]
    rfl

/-- In all states of a history the node is as it was at the start exactly when all runs are safe
for it; after such runs one that completes leaves it so too, unless it cannot see that the node is
not schedulable; and the rescue section helps the node only under its inventory_hostname. -/
theorem schedulability_kept :
    (∀ schedulable rs, (∀ qs, qs <+: rs → afterRuns h schedulable qs = schedulable) ↔
      ∀ r ∈ rs, Safe h r schedulable) ∧
    (∀ schedulable rs last, (∀ r ∈ rs, Safe h r schedulable) →
      (∃ s, upgrade h last (afterRuns h schedulable rs) = .completed s) →
      (afterRuns h schedulable (rs ++ [last]) = schedulable ↔
        (schedulable = false → ¬ Needs h last false))) ∧
    (∀ r schedulable, Needs h r schedulable → r.DrainFails → r.cordon.applied = true →
      r.upgradeNodeUncordonAfterDrainFailure = true →
      ((afterDraining h r schedulable).state.nodeSchedulable h = true ↔
        h.inventoryHostname = h.node ∧ r.rescueUncordon.applied = true)) := by
  refine ⟨afterRuns_iff h, fun schedulable rs last hs hc => ?_, fun r schedulable hneeds hf hcordon
    hasked => afterDraining_iff h r schedulable hneeds hf hcordon hasked⟩
  rw [afterRuns_of_safe h schedulable rs hs] at hc
  rw [afterRuns_append, afterRuns_of_safe h schedulable rs hs]
  exact upgrade_completed_iff h last schedulable hc

end History

def worker : HostVars where
  inventoryHostname := "node1"
  kubeOverrideHostname := none
  cloudName := "node1"
  inControlPlane := false

/-- A run all tasks of which go well, with the defaults of the roles. -/
def smoothRun : Run where
  upgradeNodeConfirm := false
  upgradeNodePauseSeconds := 0
  drainNodes := true
  drainPodSelector := ""
  upgradeNodeUncordonAfterDrainFailure := true
  upgradeNodeFailIfDrainFails := true
  others := fun _ => none
  readyStatus := "True"
  earlier := .ok
  role := fun _ => .ok
  confirm := .ok
  wait := .ok
  ready := .given
  schedulable := .given
  cordon := .ok
  kubectlVersion := .ok
  minimumVersion := .ok
  drain := .ok
  rescueUncordon := .ok
  uncordon := .ok
  later := .ok

def drainFailure : Run := { smoothRun with drain := .failed false }

theorem drainFailure_needs (h : HostVars) (hn : h.name ≠ "") : Needs h drainFailure true :=
  ⟨⟨by decide, by decide, by decide⟩, hn, rfl, rfl, .inl rfl⟩

theorem worker_schedulability_kept :
    (∀ qs, qs <+: [drainFailure] → afterRuns worker true qs = true) ∧
    afterRuns worker true ([drainFailure] ++ [smoothRun]) = true ∧
    (afterDraining worker drainFailure true).state.nodeSchedulable worker = true := by
  have hsafe : ∀ r ∈ [drainFailure], Safe worker r true := by
    intro r hr
    rw [List.mem_singleton.mp hr]
    exact (nodeSchedulable_upgrade_iff worker drainFailure true).mp (by decide +kernel)
  obtain ⟨hruns, hlast, hrescue⟩ := schedulability_kept worker
  refine ⟨(hruns true [drainFailure]).mpr hsafe, ?_, ?_⟩
  · exact (hlast true [drainFailure] smoothRun hsafe ⟨_, rfl⟩).mpr fun hfalse => by cases hfalse
  · exact (hrescue drainFailure true (drainFailure_needs worker (by decide)) ⟨false, by decide⟩ rfl
      rfl).mpr ⟨by decide, rfl⟩

/-- The role kubernetes/node fails on the node. -/
def nodeFailure : Run :=
  { smoothRun with role := fun name => if name = "kubernetes/node" then .failed false else .ok }

def renamedWorker : HostVars := { worker with kubeOverrideHostname := some "node1.example.com" }

/-- A failure between cordon and uncordon is not made up for by the next run, and the rescue
section misses a node with a name of its own. -/
theorem worker_left_cordoned :
    (¬ ∀ (h : HostVars) (schedulable : Bool) (rs : List Run) (last : Run),
      (∀ r ∈ rs ++ [last], r.readyStatus = "True" ∧ r.ready = .given ∧ r.schedulable = .given) →
      (∃ s, upgrade h last (afterRuns h schedulable rs) = .completed s) →
      afterRuns h schedulable (rs ++ [last]) = schedulable) ∧
    ¬ ∀ (h : HostVars) (r : Run) (schedulable : Bool), Needs h r schedulable → r.DrainFails →
      r.cordon.applied = true → r.upgradeNodeUncordonAfterDrainFailure = true →
      (afterDraining h r schedulable).state.nodeSchedulable h = true := by
  constructor
  · intro hkept
    have hready : ∀ r ∈ [nodeFailure] ++ [smoothRun],
        r.readyStatus = "True" ∧ r.ready = .given ∧ r.schedulable = .given := by
      intro r hr
      simp only [List.cons_append, List.nil_append, List.mem_cons, List.not_mem_nil, or_false] at hr
      obtain rfl | rfl := hr
      · exact ⟨rfl, rfl, rfl⟩
      · exact ⟨rfl, rfl, rfl⟩
    have hlast := hkept worker true [nodeFailure] smoothRun hready ⟨_, rfl⟩
    revert hlast
    decide +kernel
  · intro hrescue
    have hnode := hrescue renamedWorker drainFailure true
      (drainFailure_needs renamedWorker (by decide)) ⟨false, by decide⟩ rfl rfl
    revert hnode
    decide +kernel

end Kubespray.Upgrade

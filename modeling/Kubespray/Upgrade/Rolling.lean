import Kubespray.Lib.Batches
import Kubespray.Upgrade.Schedulability

/-! upgrade-cluster.yml over the batches of a play with `serial`: how many nodes it takes out of
service at a time. -/
namespace Kubespray.Upgrade
open Playbook

section Program
variable (h : HostVars) (r : Run)

/-- The condition of a block stands on each of its tasks. -/
def needed (t : Action RunState) : Action RunState := fun s => only (s.needsCordoning = some true) t s

/-- The tasks on one host, up to the next batch. -/
def hostProgram : Prog RunState :=
  let rest := Prog.ofTasks (remaining h r) .done .stop
  .ofTasks (gather h r) (.ofTasks ((drainingTasks h r).map needed) rest
    (.ofTasks ((drainingRescue h r).map needed) rest .stop)) .stop

abbrev Cordoning (s : RunState) : Prop := s.needsCordoning = some true

theorem eq_of_kubectlSet {name : String} {value : Bool} {s s' : RunState}
    (h : kubectlSet name value s = some s') : s'.needsCordoning = s.needsCordoning ∧
      s'.cluster = Function.update s.cluster name (some value) := by
  rw [kubectlSet] at h
  split at h
  · cases h
  · obtain ⟨_, _, rfl⟩ := Option.map_eq_some_iff.mp h
    exact ⟨rfl, rfl⟩

theorem preserves_cordoning_set (name : String) (value : Bool) (o : Outcome) :
    Preserves Cordoning (perform o (kubectlSet name value)) := by
  refine preserves_perform o fun s s' hs hset => ?_
  rw [Cordoning, (eq_of_kubectlSet hset).1]
  exact hs

theorem preserves_only {P : RunState → Prop} {t : Action RunState} (ht : Preserves P t) (c : Bool) :
    Preserves P (only c t) := by
  cases c with
  | true => exact ht
  | false => exact fun s hs => hs

/-- No task of the block or its rescue section changes the fact. -/
theorem preserves_cordoning_block {t : Action RunState}
    (ht : t ∈ drainingTasks h r ++ drainingRescue h r) : Preserves Cordoning t := by
  simp only [drainingTasks, selectorChecks, drainingRescue, List.cons_append, List.nil_append,
    List.mem_cons, List.not_mem_nil, or_false] at ht
  obtain rfl | rfl | rfl | rfl | rfl | rfl := ht
  · exact preserves_cordoning_set _ _ _
  · exact preserves_only (preserves_noEffect _) _
  · exact preserves_only (preserves_noEffect _) _
  · exact preserves_only (preserves_cordoning_set _ _ _) _
  · exact preserves_only (preserves_cordoning_set _ _ _) _
  · exact preserves_only (fun s hs => hs) _

theorem inOrder_needed {ts : List (Action RunState)} (hts : ∀ t ∈ ts, Preserves Cordoning t)
    {s : RunState} (hs : Cordoning s) : inOrder (ts.map needed) s = inOrder ts s := by
  induction ts generalizing s with
  | nil => rfl
  | cons t ts ih =>
    have ht := hts t (by simp) s hs
    have hneeded : needed t s = t s := by
      rw [needed, only, hs]
      rfl
    rw [List.map_cons, inOrder, inOrder, hneeded]
    cases he : t s with
    | completed s' =>
      rw [he] at ht
      exact ih (fun u hu => hts u (List.mem_cons_of_mem t hu)) ht
    | failed s' => rfl
    | aborted s' => rfl

theorem inOrder_needed_of_not (ts : List (Action RunState)) {s : RunState} (hs : ¬ Cordoning s) :
    inOrder (ts.map needed) s = .completed s := by
  induction ts with
  | nil => rfl
  | cons t ts ih =>
    have hneeded : needed t s = .completed s := by
      rw [needed, decide_eq_false hs]
      rfl
    rw [List.map_cons, inOrder, hneeded]
    exact ih

theorem block_needed (s : RunState) :
    Playbook.block ((drainingTasks h r).map needed) ((drainingRescue h r).map needed) s =
      nodeDraining h r s := by
  by_cases hs : Cordoning s
  · have htasks : ∀ t ∈ drainingTasks h r, Preserves Cordoning t := fun t ht =>
      preserves_cordoning_block h r (List.mem_append_left _ ht)
    have hend := Preserves.inOrder htasks s hs
    rw [nodeDraining, only, decide_eq_true hs, if_pos rfl, Playbook.block, Playbook.block,
      inOrder_needed htasks hs]
    cases he : inOrder (drainingTasks h r) s with
    | completed s' => rfl
    | failed s' =>
      rw [he] at hend
      exact inOrder_needed (fun t ht => preserves_cordoning_block h r (List.mem_append_right _ ht)) hend
    | aborted s' => rfl
  · rw [Playbook.block, inOrder_needed_of_not _ hs, nodeDraining, decide_eq_false hs]
    rfl

/-- Alone, a host does what the run on one node does. -/
theorem alone_hostProgram (s : RunState) : (hostProgram h r).alone s = upgradeCluster h r s := by
  have hrest : (Prog.ofTasks (remaining h r) .done .stop).alone = inOrder (remaining h r) := by
    funext s
    rw [Prog.alone_ofTasks_stop]
    cases inOrder (remaining h r) s <;> rfl
  have hdraining : ∀ s, (Prog.ofTasks ((drainingTasks h r).map needed)
      (.ofTasks (remaining h r) .done .stop) (.ofTasks ((drainingRescue h r).map needed)
        (.ofTasks (remaining h r) .done .stop) .stop)).alone s =
      (nodeDraining h r s).andThen (inOrder (remaining h r)) := by
    intro s
    rw [Prog.alone_ofTasks_rescue, block_needed, hrest]
  rw [hostProgram, Prog.alone_ofTasks_stop, upgradeCluster_eq]
  exact congrArg _ (funext hdraining)

end Program

section Schedulable

/-- The cluster, in what a host has gathered. -/
def sharing : Sharing Cluster RunState where
  get := RunState.cluster
  put cluster s := { s with cluster := cluster }
  get_put _ _ := rfl
  put_get _ := rfl
  put_put _ _ _ := rfl

def Schedulable (name : String) (cluster : Cluster) : Prop := cluster name = some true

abbrev Keeps (name : String) (t : Action RunState) : Prop :=
  Preserves (fun s => Schedulable name s.cluster) t

theorem keeps_set {name other : String} {value : Bool} (h : value = true ∨ name ≠ other) (o : Outcome) :
    Keeps name (perform o (kubectlSet other value)) := by
  refine preserves_perform o fun s s' hs hset => ?_
  rw [Schedulable, (eq_of_kubectlSet hset).2]
  by_cases he : name = other
  · rw [he, Function.update_self, h.resolve_right fun hne => hne he]
  · rw [Function.update_of_ne he]
    exact hs

variable (h : HostVars) (r : Run)

theorem keeps_gather (name : String) : ∀ t ∈ gather h r, Keeps name t := by
  intro t ht
  simp only [gather, List.mem_append, List.mem_map, List.mem_cons, List.not_mem_nil, or_false] at ht
  obtain ⟨o, -, rfl⟩ | rfl | rfl | rfl := ht
  · exact preserves_noEffect o
  · intro s hs
    rw [seeIfReady]
    split <;> exact hs
  · intro s hs
    rw [seeIfSchedulable]
    split <;> exact hs
  · exact fun s hs => hs

theorem keeps_needed {name : String} {t : Action RunState} (ht : Keeps name t) : Keeps name (needed t) :=
  fun s hs => preserves_only ht _ s hs

theorem keeps_drainingTasks {name : String} (hname : name ≠ h.name) :
    ∀ t ∈ drainingTasks h r, Keeps name t := by
  intro t ht
  simp only [drainingTasks, selectorChecks, List.cons_append, List.nil_append, List.mem_cons,
    List.not_mem_nil, or_false] at ht
  obtain rfl | rfl | rfl | rfl := ht
  · exact keeps_set (.inr hname) _
  · exact preserves_only (preserves_noEffect _) _
  · exact preserves_only (preserves_noEffect _) _
  · exact preserves_only (keeps_set (.inr hname) _) _

theorem keeps_drainingRescue (name : String) : ∀ t ∈ drainingRescue h r, Keeps name t := by
  intro t ht
  simp only [drainingRescue, List.mem_cons, List.not_mem_nil, or_false] at ht
  obtain rfl | rfl := ht
  · exact preserves_only (keeps_set (.inl rfl) _) _
  · exact preserves_only (fun s hs => hs) _

theorem keeps_postUpgrade (name : String) : ∀ t ∈ postUpgrade h r, Keeps name t := by
  intro t ht
  rw [List.mem_singleton.mp ht]
  exact fun s hs => preserves_only (keeps_set (.inl rfl) _) _ s hs

theorem keeps_remaining (name : String) : ∀ t ∈ remaining h r, Keeps name t := by
  intro t ht
  simp only [remaining, List.mem_append, List.mem_map, List.mem_singleton] at ht
  obtain ⟨role, -, rfl⟩ | hpost | rfl := ht
  · exact preserves_noEffect _
  · exact keeps_postUpgrade h r name t hpost
  · exact preserves_noEffect _

/-- A host takes no node out of service but its own. -/
theorem keeps_hostProgram {name : String} (hname : name ≠ h.name) :
    (hostProgram h r).Keeps fun s => Schedulable name s.cluster := by
  have hneeded : ∀ ts : List (Action RunState), (∀ t ∈ ts, Keeps name t) →
      ∀ t ∈ ts.map needed, Keeps name t := by
    intro ts hts t ht
    obtain ⟨u, hu, rfl⟩ := List.mem_map.mp ht
    exact keeps_needed (hts u hu)
  have hrest : (Prog.ofTasks (remaining h r) .done .stop).Keeps fun s => Schedulable name s.cluster :=
    keeps_ofTasks (keeps_remaining h r name) trivial trivial
  exact keeps_ofTasks (keeps_gather h r name)
    (keeps_ofTasks (hneeded _ (keeps_drainingTasks h r hname)) hrest
      (keeps_ofTasks (hneeded _ (keeps_drainingRescue h r name)) hrest trivial)) trivial

/-- Once it has been decided: the node is schedulable, or it is the host's to uncordon. -/
def InHand (s : RunState) : Prop := s.needsCordoning ≠ some true → Schedulable h.name s.cluster

theorem inHand_needed {t : Action RunState} (ht : Preserves Cordoning t) :
    Preserves (InHand h) (needed t) := by
  intro s hs
  by_cases hc : Cordoning s
  · have hend := preserves_only ht (decide (Cordoning s)) s hc
    exact fun hno => absurd hend hno
  · rw [needed, decide_eq_false hc]
    exact hs

/-- The others do not take the node out of service. -/
theorem inHand_put (cluster : Cluster) (s : RunState) (hs : InHand h s)
    (hkeep : Schedulable h.name s.cluster → Schedulable h.name cluster) :
    InHand h (sharing.put cluster s) := fun hno => hkeep (hs hno)

/-- What completes the role post-upgrade has the node schedulable. -/
theorem schedulable_of_postUpgrade {s s' : RunState} (hs : InHand h s)
    (he : only (s.needsCordoning.getD false) (perform r.uncordon (kubectlSet h.name true)) s =
      .completed s') : Schedulable h.name s'.cluster := by
  by_cases hc : s.needsCordoning = some true
  · rw [hc, Option.getD_some, only, if_pos rfl] at he
    obtain ⟨-, hset⟩ := perform_completed_iff.mp he
    rw [Schedulable, (eq_of_kubectlSet hset).2, Function.update_self]
  · have hskip : s.needsCordoning.getD false = false := by
      cases hn : s.needsCordoning with
      | none => rfl
      | some b =>
        cases b with
        | false => rfl
        | true => exact absurd hn hc
    rw [hskip] at he
    obtain rfl := Ended.completed.inj he
    exact hs hc

theorem secures_remaining {s : RunState} (hs : InHand h s) :
    Secures sharing (Schedulable h.name) (Prog.ofTasks (remaining h r) .done .stop) s := by
  have hlater : ∀ s, Schedulable h.name s.cluster →
      Secures sharing (Schedulable h.name) (Prog.ofTasks [noEffect r.later] .done .stop) s := by
    intro s hs
    refine secures_ofTasks (P := fun s => Schedulable h.name s.cluster) (fun _ _ hP hF => hF hP)
      (fun t ht => ?_) (fun _ hP => secures_done hP) (fun s _ => secures_stop s) hs
    rw [List.mem_singleton.mp ht]
    exact preserves_noEffect _
  rw [remaining, Prog.ofTasks, List.foldr_append]
  refine secures_ofTasks (inHand_put h) (fun t ht => ?_) (fun s hs => ?_) (fun s _ => secures_stop s) hs
  · obtain ⟨role, -, rfl⟩ := List.mem_map.mp ht
    exact preserves_noEffect _
  · exact secures_task (inHand_put h) (fun s s' hs he => hlater s' (schedulable_of_postUpgrade h r hs he))
      (fun _ s _ _ => secures_stop s) hs

/-- A host that finds its node schedulable leaves it so when it finishes. -/
theorem secures_hostProgram (s : RunState) (hs : Schedulable h.name s.cluster) :
    Secures sharing (Schedulable h.name) (hostProgram h r) s := by
  refine secures_ofTasks (P := fun s => Schedulable h.name s.cluster) (fun _ _ hP hF => hF hP)
    (keeps_gather h r h.name) (fun s hs => ?_) (fun s _ => secures_stop s) hs
  refine secures_ofTasks (inHand_put h) (fun t ht => ?_) (fun s hs => secures_remaining h r hs)
    (fun s hs => ?_) (fun _ => hs)
  · obtain ⟨u, hu, rfl⟩ := List.mem_map.mp ht
    exact inHand_needed h (preserves_cordoning_block h r (List.mem_append_left _ hu))
  · refine secures_ofTasks (inHand_put h) (fun t ht => ?_) (fun s hs => secures_remaining h r hs)
      (fun s _ => secures_stop s) hs
    obtain ⟨u, hu, rfl⟩ := List.mem_map.mp ht
    exact inHand_needed h (preserves_cordoning_block h r (List.mem_append_right _ hu))

end Schedulable

section Batches
variable {η : Type} (host : η → HostVars) (run : η → Run)

def programs (i : η) : Prog RunState := hostProgram (host i) (run i)

theorem rolling (hnames : Function.Injective fun i => (host i).name) :
    Rolling sharing (programs host run) Schedulable fun i => (host i).name where
  own_injective := hnames
  keeps i _ hn := keeps_hostProgram (host i) (run i) hn
  secures i := secures_hostProgram (host i) (run i)

/-- Two workers, one after the other. -/
def workers (second : Bool) : HostVars := { worker with
  inventoryHostname := if second then "node2" else "node1" }

def idle : RunState := ⟨fun _ => none, "", "", none⟩

/-- The first worker is being drained. -/
def draining : Config Bool Cluster RunState :=
  (List.replicate 9 false).foldl (Config.runTask sharing)
    { Config.start (fun _ => some true) (fun _ => idle) [] with
      todo := fun i => if i ∈ [false] then programs workers (fun _ => smoothRun) i else .done
      batch := [false]
      later := [[true]] }

end Batches

end Kubespray.Upgrade

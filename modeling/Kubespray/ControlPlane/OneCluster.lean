import Kubespray.ControlPlane.Kubeadm

/-! All hosts that kubeadm has been run on are in one cluster: when runs keep that, and what a
completed run leaves to later ones. -/
namespace Kubespray.ControlPlane
open Playbook

section Initialized
variable {H C : Type} [DecidableEq H] {master : H → Bool} {g : Inventory master} {w : World H C}
  {s : H → Node C} {c : C}

/-- The calls of `kubeadm init` that are made: no other follows one that is accepted. -/
def tried : List Attempt → List Attempt
  | [] => []
  | a :: as => if a.initExit = .nonzero then a :: tried as else [a]

/-- `kubeadm init` has come so far as to write the configuration of the kubelet. -/
def World.writes (w : World H C) : Bool :=
  (tried (w.init.take attempts)).any (·.wroteKubeletConfig)

theorem retry_init_kubeletConfig (as : List Attempt) (n : Node C) :
    (retry (as.map (·.init c)) n).state.kubeletConfig =
      if (tried as).any (·.wroteKubeletConfig) then some c else n.kubeletConfig := by
  induction as generalizing n with
  | nil => rfl
  | cons a as ih =>
    rw [List.map_cons, retry, tried]
    cases he : a.initExit with
    | nonzero =>
      have hends : a.init c n = .failed (a.write c n) := by rw [Attempt.init, he]; rfl
      rw [hends, Ended.orRescue, ih, if_pos rfl, List.any_cons]
      cases hw : a.wroteKubeletConfig <;> simp [Attempt.write, hw]
    | zero =>
      have hends : a.init c n = .completed (a.write c n) := by rw [Attempt.init, he]; rfl
      rw [hends, if_neg (show Exit.zero ≠ .nonzero by decide)]
      simp [Ended.orRescue, Ended.state, Attempt.write]
    | unreachable =>
      have hends : a.init c n = .aborted (a.write c n) := by rw [Attempt.init, he]; rfl
      rw [hends, if_neg (show Exit.unreachable ≠ .nonzero by decide)]
      simp [Ended.orRescue, Ended.state, Attempt.write]

theorem initializeFirst_first (hs : (s g.first).kubeletConfig = none) :
    ((initializeFirst g w (alreadyRun s) s).state g.first).kubeletConfig =
      if w.writes then some w.cluster else none := by
  have hmem : g.first ∈ [g.first].filter fun h => !alreadyRun s h := by
    simp [alreadyRun, hs]
  rw [initializeFirst, onHosts_state, if_pos hmem, retry_init_kubeletConfig, hs, World.writes]

theorem initializeFirst_stopped (hs : (s g.first).kubeletConfig = none) (hw : w.writes = false) :
    (initializeFirst g w (alreadyRun s) s).isCompleted = false := by
  have hmem : g.first ∈ [g.first].filter fun h => !alreadyRun s h := by
    simp [alreadyRun, hs]
  have hnone := initializeFirst_first (w := w) hs
  rw [hw] at hnone
  by_contra hcomp
  have hends := (Ended.isCompleted_iff _).mp (by simpa using hcomp)
  rw [initializeFirst] at hends
  have haccepted := onHosts_completed hends hmem
  obtain ⟨a, ha, u, hu⟩ := retry_completed haccepted
  obtain ⟨x, -, rfl⟩ := List.mem_map.mp ha
  exact absurd ((init_completed hu).symm.trans hnone) (by simp)

/-- The cluster of the first master after a run. -/
theorem run_first (s : H → Node C) : joined master (run g w s).state g.first =
    (joined master s g.first).or (if w.writes then some w.cluster else none) := by
  rw [joined_first g s]
  cases hs : (s g.first).kubeletConfig with
  | some c => exact (run_progress s).joined_eq (by rw [joined_first, hs])
  | none =>
    have hinit := initializeFirst_first (w := w) hs
    cases hw : w.writes with
    | true =>
      rw [hw] at hinit
      exact (run_progress_initialized s).joined_eq (by rw [joined_first, hinit]; rfl)
    | false =>
      rw [hw] at hinit
      rw [run_state_of_stopped (initializeFirst_stopped hs hw), joined_first, hinit]
      rfl

/-- A second cluster is not made: the first master has run before, or its initialization has come to
nothing, or goes on with the authority of the cluster there is. -/
def KeepsCluster (g : Inventory master) (w : World H C) (s : H → Node C) : Prop :=
  joined master s g.first ≠ none ∨ w.writes = false ∨
    ∀ h c, joined master s h = some c → c = w.cluster

theorem oneCluster_run_iff (hs : OneCluster master s) :
    OneCluster master (run g w s).state ↔ KeepsCluster g w s := by
  have hprogress := run_progress (g := g) (w := w) s
  have hfirst := run_first (g := g) (w := w) s
  constructor
  · intro hone
    by_cases hran : joined master s g.first = none
    · cases hw : w.writes with
      | false => exact .inr (.inl hw)
      | true =>
        rw [hran, hw] at hfirst
        exact .inr (.inr fun h c hj => hone h g.first c w.cluster (hprogress.joined_eq hj) hfirst)
    · exact .inl hran
  · intro hkeeps
    -- all that have joined after the run have the cluster of the first master, or of before
    have hall : ∀ h c, joined master (run g w s).state h = some c →
        joined master s h = some c ∨
          (joined master s h = none ∧ joined master (run g w s).state g.first = some c) := by
      intro h c hj
      cases hh : joined master s h with
      | none => exact .inr ⟨rfl, (hprogress.joins h c hj).resolve_left (by simp [hh])⟩
      | some x =>
        rw [hprogress.joined_eq hh] at hj
        exact .inl hj
    have hmixed : ∀ h x y, joined master s h = some x →
        joined master (run g w s).state g.first = some y → x = y := by
      intro h x y hx hy
      cases hran : joined master s g.first with
      | some z =>
        rw [hprogress.joined_eq hran] at hy
        exact (hs h g.first x z hx hran).trans (Option.some.inj hy)
      | none =>
        rw [hfirst, hran, Option.none_or] at hy
        cases hw : w.writes with
        | false => simp [hw] at hy
        | true =>
          have hsame := (hkeeps.resolve_left (by simp [hran])).resolve_left (by simp [hw])
          rw [hsame h x hx]
          simpa [hw] using hy
    intro h h' c c' hj hj'
    cases hall h c hj with
    | inl hold =>
      cases hall h' c' hj' with
      | inl hold' => exact hs h h' c c' hold hold'
      | inr hnew' => exact hmixed h c c' hold hnew'.2
    | inr hnew =>
      cases hall h' c' hj' with
      | inl hold' => exact (hmixed h' c' c hold' hnew.2).symm
      | inr hnew' => exact Option.some.inj (hnew.2.symm.trans hnew'.2)

end Initialized

section Completed
variable {H C : Type} [DecidableEq H] {master : H → Bool} {g : Inventory master} {w : World H C}
  {s s' : H → Node C}

theorem initializeFirst_completed (h : initializeFirst g w (alreadyRun s) s = .completed s') :
    (s' g.first).kubeletConfig ≠ none := by
  cases hs : (s g.first).kubeletConfig with
  | some c =>
    have hkeeps := (initializeFirst_progress (g := g) (w := w) s).joined_eq
      (show joined master s g.first = some c by rw [joined_first, hs])
    rw [h, joined_first] at hkeeps
    simp [show (s' g.first).kubeletConfig = some c from hkeeps]
  | none =>
    have hmem : g.first ∈ [g.first].filter fun h => !alreadyRun s h := by
      simp [alreadyRun, hs]
    rw [initializeFirst] at h
    have haccepted := onHosts_completed h hmem
    obtain ⟨a, ha, u, hu⟩ := retry_completed haccepted
    obtain ⟨x, -, rfl⟩ := List.mem_map.mp ha
    simp [init_completed hu]

theorem joinMasters_completed {ran : H → Bool} (h : joinMasters g w ran s = .completed s') :
    ∀ m ∈ g.others, ran m = false → (s' m).kubeletConfig ≠ none := by
  intro m hm hran
  rw [joinMasters] at h
  cases hc : (s g.first).kubeletConfig with
  | none =>
    rw [hc] at h
    cases h
  | some c =>
    rw [hc] at h
    have hmem : m ∈ g.others.filter fun h => !ran h := List.mem_filter.mpr ⟨hm, by simp [hran]⟩
    have haccepted := onHosts_completed h hmem
    obtain ⟨a, ha, u, hu⟩ := retry_completed haccepted
    obtain ⟨x, -, rfl⟩ := List.mem_map.mp ha
    simp [resetAndJoin_completed hu]

theorem joinWorkers_completed (h : joinWorkers g w s = .completed s') :
    ∀ m ∈ g.workers, (s' m).kubeletConf ≠ none := by
  intro m hm
  rw [joinWorkers] at h
  cases hc : (s g.first).kubeletConfig with
  | none =>
    rw [hc] at h
    cases h
  | some c =>
    rw [hc] at h
    cases hran : (s m).kubeletConf with
    | some x =>
      have hout : m ∉ g.workers.filter fun h => !(s h).kubeletConf.isSome := by simp [hran]
      simp [onHosts_of_not_mem h hout, hran]
    | none =>
      have hmem : m ∈ g.workers.filter fun h => !(s h).kubeletConf.isSome :=
        List.mem_filter.mpr ⟨hm, by simp [hran]⟩
      have hends := onHosts_completed h hmem
      rw [block_singleton] at hends
      obtain ⟨a, ha, u, hu⟩ := retry_completed hends
      simp only [List.mem_cons, List.not_mem_nil, or_false] at ha
      obtain rfl | rfl := ha
      · simp [join_completed hu]
      · simp [join_completed hu]

theorem controlPlane_completed (h : controlPlane g w s = .completed s') :
    ∀ m ∈ g.first :: g.others, joined master s' m ≠ none := by
  have hprogress := controlPlane_progress (g := g) (w := w) s
  rw [h] at hprogress
  rw [controlPlane] at h
  obtain ⟨u, hu, hustate, hrest⟩ := completed_of_cons h
  obtain ⟨v, hv, hvstate, hrest⟩ := completed_of_cons hrest
  obtain ⟨x, hx, -, hend⟩ := completed_of_cons hrest
  obtain rfl : x = s' := Ended.completed.inj hend
  rw [hustate, Ended.state_completed] at hprogress
  intro m hm
  cases List.mem_cons.mp hm with
  | inl hfirst =>
    rw [hfirst]
    cases hc : (u g.first).kubeletConfig with
    | none => exact absurd hc (initializeFirst_completed hu)
    | some c =>
      rw [hprogress.joined_eq (by rw [joined_first, hc])]
      simp
  | inr hother =>
    rw [joined_master (g.others_master m hother)]
    by_cases hran : alreadyRun s m = false
    · exact joinMasters_completed hx m hother hran
    · have hsome : joined master s m ≠ none := by
        rw [joined_master (g.others_master m hother)]
        simpa [alreadyRun, Option.isSome_iff_ne_none] using hran
      have hinit := initializeFirst_progress (g := g) (w := w) s
      rw [hustate] at hinit
      rw [← joined_master (g.others_master m hother),
        joined_congr ((hinit.trans hprogress).untouched m hsome)]
      exact hsome

/-- A run that completes has every host join. -/
theorem run_completed (h : run g w s = .completed s') : ∀ m ∈ g.hosts, joined master s' m ≠ none := by
  rw [run] at h
  obtain ⟨u, hu, -, hrest⟩ := completed_of_cons h
  obtain ⟨v, hv, hvstate, hrest⟩ := completed_of_cons hrest
  obtain ⟨x, hx, hxstate, hend⟩ := completed_of_cons hrest
  obtain rfl : x = s' := Ended.completed.inj hend
  obtain rfl : u = v := by rwa [prepareWorkers, prepare_state] at hvstate
  intro m hm
  cases List.mem_append.mp hm with
  | inl hmaster =>
    have hjoined := controlPlane_completed hu m hmaster
    have hprogress := joinWorkers_progress (g := g) (w := w) u
    rw [hxstate] at hprogress
    rwa [joined_congr (hprogress.untouched m hjoined)]
  | inr hworker =>
    rw [joined_worker (g.workers_not m hworker)]
    exact joinWorkers_completed hx m hworker

end Completed

section Frame
variable {H C : Type} [DecidableEq H] {master : H → Bool} {g : Inventory master} {w : World H C} {h : H}

theorem scale_state_of_not_mem (s : H → Node C) (hh : h ∉ g.workers) : (scale g w s).state h = s h := by
  refine inOrder_of_untouched (fun t ht x => ?_) s
  simp only [List.mem_cons, List.not_mem_nil, or_false] at ht
  obtain rfl | rfl := ht
  · rw [prepareWorkers, prepare_state]
  · rw [joinWorkers]
    split
    · rfl
    · exact onHosts_filter_of_not_mem hh _ _ _

theorem controlPlane_state_of_not_mem (s : H → Node C) (hh : h ∉ g.first :: g.others) :
    (controlPlane g w s).state h = s h := by
  obtain ⟨hfirst, hothers⟩ := not_or.mp (mt List.mem_cons.mpr hh)
  refine inOrder_of_untouched (fun t ht x => ?_) s
  simp only [List.mem_cons, List.not_mem_nil, or_false] at ht
  obtain rfl | rfl | rfl := ht
  · exact initializeFirst_state_of_ne _ hfirst
  · rw [prepareMasters, prepare_state]
  · rw [joinMasters]
    split
    · rfl
    · exact onHosts_filter_of_not_mem hothers _ _ _

theorem run_state_of_not_mem (s : H → Node C) (hh : h ∉ g.hosts) : (run g w s).state h = s h := by
  rw [Inventory.hosts, List.mem_append, not_or] at hh
  have hmasters := controlPlane_state_of_not_mem (w := w) s hh.1
  rw [run]
  cases inOrder_cons_cases (controlPlane g w) [prepareWorkers g w, joinWorkers g w] s with
  | inr hends => rwa [hends]
  | inl hex =>
    obtain ⟨u, hu, hrest⟩ := hex
    rw [hu, Ended.state_completed] at hmasters
    rw [hrest, ← hmasters]
    exact scale_state_of_not_mem u hh.2

end Frame

section Life
variable {H C : Type} [DecidableEq H] {master : H → Bool} {g : Inventory master} {w : World H C}
  {s s' t : H → Node C}

/-- What is done to the hosts: cluster.yml, scale.yml, and the role reset of reset.yml and
remove-node.yml, with the files it has deleted by its end. -/
inductive Command (master : H → Bool) (C : Type) where
  | deploy (g : Inventory master) (w : World H C)
  | scale (g : Inventory master) (w : World H C)
  | reset (hs : List H) (r : H → Reset)

def Command.after : Command master C → (H → Node C) → H → Node C
  | .deploy g w, s => (run g w s).state
  | .scale g w, s => (ControlPlane.scale g w s).state
  | .reset hs r, s => fun h => if h ∈ hs then (r h).remove (s h) else s h

def step (s : H → Node C) (c : Command master C) : Except Empty (H → Node C) := .ok (c.after s)

/-- Only a run of cluster.yml can make a second cluster. -/
def Command.Keeps (s : H → Node C) : Command master C → Prop
  | .deploy g w => KeepsCluster g w s
  | .scale _ _ => True
  | .reset _ _ => True

theorem oneCluster_scale (hs : OneCluster master s) : OneCluster master (scale g w s).state := by
  have hprogress := scale_progress (g := g) (w := w) s
  have hfirst : joined master (scale g w s).state g.first = joined master s g.first :=
    joined_congr (scale_state_of_not_mem s g.first_not_worker)
  -- who joins has the cluster that the first master is in before and after
  have hall : ∀ m c, joined master (scale g w s).state m = some c →
      joined master s m = some c ∨ joined master s g.first = some c := fun m c hj =>
    (hprogress.joins m c hj).imp_right fun h => hfirst ▸ h
  intro m m' c c' hj hj'
  cases hall m c hj with
  | inl hold =>
    cases hall m' c' hj' with
    | inl hold' => exact hs m m' c c' hold hold'
    | inr hnew' => exact hs m g.first c c' hold hnew'
  | inr hnew =>
    cases hall m' c' hj' with
    | inl hold' => exact hs g.first m' c c' hnew hold'
    | inr hnew' => exact Option.some.inj (hnew.symm.trans hnew')

theorem joined_reset {hs : List H} {r : H → Reset} {m : H} {c : C}
    (h : joined master ((Command.reset hs r : Command master C).after s) m = some c) :
    joined master s m = some c := by
  simp only [joined, Command.after] at h ⊢
  split at h <;> split at h <;> simp_all [Reset.remove]

theorem oneCluster_after_iff (hs : OneCluster master s) (c : Command master C) :
    OneCluster master (c.after s) ↔ c.Keeps s := by
  cases c with
  | deploy g w => exact oneCluster_run_iff hs
  | scale g w => exact iff_of_true (oneCluster_scale hs) trivial
  | reset hosts r => exact iff_of_true (hs.mono fun _ _ => joined_reset) trivial

/-- Whatever fails on the way, there is one cluster after every playbook exactly when no run of
cluster.yml makes a second one. -/
theorem oneCluster_along_iff (s : H → Node C) (hs : OneCluster master s) (cs : List (Command master C)) :
    Runs.Along step (fun _ _ s' => OneCluster master s') s cs ↔
      Runs.Along step (fun s c _ => c.Keeps s) s cs := by
  refine Runs.along_iff_along (I := OneCluster master) (fun s c s' hI h => ?_)
    (fun s c s' _ _ hR => hR) hs cs
  obtain rfl := Except.ok.inj h
  exact oneCluster_after_iff hI c

/-- Another run on hosts that `hs` has. -/
def Command.Within (hs : List H) : Command master C → Prop
  | .deploy g _ => g.hosts ⊆ hs
  | .scale g _ => g.hosts ⊆ hs
  | .reset _ _ => False

theorem after_of_joined {hs : List H} (hjoined : ∀ m ∈ hs, joined master s m ≠ none)
    {c : Command master C} (hc : c.Within hs) : c.after s = s := by
  funext m
  cases c with
  | deploy g w =>
    by_cases hm : m ∈ g.hosts
    · exact (run_progress s).untouched m (hjoined m (hc hm))
    · exact run_state_of_not_mem s hm
  | scale g w =>
    by_cases hm : m ∈ g.workers
    · exact (scale_progress s).untouched m (hjoined m (hc (List.mem_append_right _ hm)))
    · exact scale_state_of_not_mem s hm
  | reset hosts r => exact hc.elim

/-- A control plane of one host and another node. -/
def twoHosts : Inventory (· = "node1") where
  first := "node1"
  others := []
  workers := ["node2"]
  first_master := by decide
  others_master := by decide
  workers_not := by decide
  first_not_mem := by decide

def accepted : Attempt := ⟨.zero, false, true, true, true, by decide⟩

def cleanWorld : World String Nat where
  cluster := 1
  init := [⟨.nonzero, false, false, true, true, by decide⟩, accepted]
  prepare := fun _ => .zero
  join := fun _ => []
  prepareWorker := fun _ => .zero
  joinWorker := fun _ => (accepted, accepted)

def freshHosts : String → Node Nat := fun _ => ⟨none, none, false⟩

theorem joined_freshHosts (h : String) : joined (· = "node1") freshHosts h = none := ite_self _

theorem oneCluster_freshHosts : OneCluster (· = "node1") freshHosts := by
  intro h h' c c' hj _
  cases (joined_freshHosts h).symm.trans hj

/-- node2 is reset and scaled in again, and the last run finds an authority of its own. -/
theorem oneCluster_along_twoHosts : Runs.Along step (fun _ _ s' => OneCluster (· = "node1") s') freshHosts
    [.deploy twoHosts cleanWorld, .reset ["node2"] fun _ => ⟨.zero, true, true, true⟩,
      .scale twoHosts cleanWorld, .deploy twoHosts { cleanWorld with cluster := 2 }] := by
  refine (oneCluster_along_iff freshHosts oneCluster_freshHosts _).mpr ⟨?_, trivial, trivial, ?_, trivial⟩
  · refine .inr (.inr fun h c hj => ?_)
    cases (joined_freshHosts h).symm.trans hj
  · exact .inl (by decide)

end Life

end Kubespray.ControlPlane

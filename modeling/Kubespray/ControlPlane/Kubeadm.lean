import Kubespray.Lib.Hosts
import Kubespray.Lib.Runs

/-! Where cluster.yml runs kubeadm: `kubeadm init` on the first host of kube_control_plane and
`kubeadm join` on the others (control-plane/tasks/kubeadm-setup.yml, kubeadm-secondary.yml), then
`kubeadm join` on the other hosts of k8s_cluster (kubeadm/tasks/main.yml), which is also what
scale.yml does. -/
namespace Kubespray.ControlPlane
open Playbook

/-- The files by which a host is known, with the cluster they were written for. -/
structure Node (C : Type) where
  /-- /var/lib/kubelet/config.yaml -/
  kubeletConfig : Option C
  /-- kubelet.conf in kube_config_dir -/
  kubeletConf : Option C
  /-- /etc/kubernetes/manifests/kube-apiserver.yaml -/
  apiserverManifest : Bool
  deriving DecidableEq

inductive Exit where
  | zero
  | nonzero
  | unreachable
  deriving DecidableEq

def Exit.ends {σ : Type*} (e : Exit) (s : σ) : Ended σ :=
  match e with
  | .zero => .completed s
  | .nonzero => .failed s
  | .unreachable => .aborted s

@[simp] theorem Exit.state_ends {σ : Type*} (e : Exit) (s : σ) : (e.ends s).state = s := by
  cases e <;> rfl

theorem Exit.ends_completed {σ : Type*} {e : Exit} {s s' : σ} (h : e.ends s = .completed s') :
    e = .zero ∧ s = s' := by
  cases e with
  | zero => exact ⟨rfl, Ended.completed.inj h⟩
  | nonzero => cases h
  | unreachable => cases h

/-- One call of `kubeadm init` or `kubeadm join`: how it ends, whether "field is immutable" is in
its stderr, and the files it has written by then. The kubelet's files are there before it uploads
anything, and so in every call that is accepted. -/
structure Attempt where
  exit : Exit
  fieldIsImmutable : Bool
  wroteKubeletConfig : Bool
  wroteKubeletConf : Bool
  wroteManifest : Bool
  written : exit = .zero ∨ fieldIsImmutable = true →
    wroteKubeletConfig = true ∧ wroteKubeletConf = true

/-- One call of `kubeadm reset -f`. -/
structure Reset where
  exit : Exit
  removedKubeletConfig : Bool
  removedKubeletConf : Bool
  removedManifest : Bool

section Calls
variable {C : Type}

def Attempt.write (a : Attempt) (c : C) (n : Node C) : Node C where
  kubeletConfig := if a.wroteKubeletConfig then some c else n.kubeletConfig
  kubeletConf := if a.wroteKubeletConf then some c else n.kubeletConf
  apiserverManifest := a.wroteManifest || n.apiserverManifest

def Reset.remove (r : Reset) (n : Node C) : Node C where
  kubeletConfig := if r.removedKubeletConfig then none else n.kubeletConfig
  kubeletConf := if r.removedKubeletConf then none else n.kubeletConf
  apiserverManifest := !r.removedManifest && n.apiserverManifest

def Attempt.join (a : Attempt) (c : C) : Action (Node C) := fun n => a.exit.ends (a.write c n)

/-- `until` and `failed_when` of the task that initializes the first master. -/
def Attempt.initExit (a : Attempt) : Exit :=
  match a.exit with
  | .nonzero => if a.fieldIsImmutable then .zero else .nonzero
  | e => e

def Attempt.init (a : Attempt) (c : C) : Action (Node C) := fun n => a.initExit.ends (a.write c n)

/-- `if [ -f kube-apiserver.yaml ]; then kubeadm reset; fi && kubeadm join` -/
def resetAndJoin (c : C) (t : Reset × Attempt) : Action (Node C) := fun n =>
  if n.apiserverManifest then (t.1.exit.ends (t.1.remove n)).andThen (t.2.join c)
  else t.2.join c n

end Calls

/-- The hosts of one run. Which of all hosts are in the control plane does not change between runs;
their order may, and so may which of them the run is about. -/
structure Inventory {H : Type} (master : H → Bool) where
  /-- `groups['kube_control_plane'] | first` -/
  first : H
  others : List H
  /-- The hosts of k8s_cluster that are not in the control plane. -/
  workers : List H
  first_master : master first = true
  others_master : ∀ h ∈ others, master h = true
  workers_not : ∀ h ∈ workers, master h = false
  first_not_mem : first ∉ others

def Inventory.hosts {H : Type} {master : H → Bool} (g : Inventory master) : List H :=
  g.first :: g.others ++ g.workers

theorem Inventory.first_not_worker {H : Type} {master : H → Bool} (g : Inventory master) :
    g.first ∉ g.workers := fun hm =>
  absurd ((g.workers_not g.first hm).symm.trans g.first_master) (by decide)

/-- How the calls of one run end. -/
structure World (H C : Type) where
  /-- The authority that `kubeadm init` finds on the first master, or makes. -/
  cluster : C
  init : List Attempt
  /-- The tasks of the control plane between the initialization and the joins. -/
  prepare : H → Exit
  join : H → List (Reset × Attempt)
  /-- The tasks of the role kubernetes/kubeadm before the join. -/
  prepareWorker : H → Exit
  /-- The call of the block, and that of its rescue section. -/
  joinWorker : H → Attempt × Attempt

/-- `retries: 3` asks for three more attempts. -/
def attempts : Nat := 4

section Play
variable {H C : Type} [DecidableEq H] {master : H → Bool} (g : Inventory master) (w : World H C)

/-- kubeadm_already_run.stat.exists, in the state the play begins with -/
def alreadyRun (s : H → Node C) (h : H) : Bool := (s h).kubeletConfig.isSome

def initializeFirst (ran : H → Bool) : Action (H → Node C) :=
  onHosts ([g.first].filter fun h => !ran h) fun _ =>
    retry ((w.init.take attempts).map (·.init w.cluster))

def prepareMasters : Action (H → Node C) :=
  onHosts (g.first :: g.others) fun h n => (w.prepare h).ends n

/-- The token and the certificate key come from the first master, and so does the cluster. -/
def joinMasters (ran : H → Bool) : Action (H → Node C) := fun s =>
  match (s g.first).kubeletConfig with
  | none => .failed s
  | some c => onHosts (g.others.filter fun h => !ran h)
      (fun h => retry (((w.join h).take attempts).map (resetAndJoin c))) s

def controlPlane : Action (H → Node C) := fun s =>
  let ran := alreadyRun s
  inOrder [initializeFirst g w ran, prepareMasters g w, joinMasters g w ran] s

def prepareWorkers : Action (H → Node C) :=
  onHosts g.workers fun h n => (w.prepareWorker h).ends n

def joinWorkers : Action (H → Node C) := fun s =>
  match (s g.first).kubeletConfig with
  | none => .failed s
  | some c => onHosts (g.workers.filter fun h => !(s h).kubeletConf.isSome)
      (fun h => block [(w.joinWorker h).1.join c] [(w.joinWorker h).2.join c]) s

def run : Action (H → Node C) :=
  inOrder [controlPlane g w, prepareWorkers g w, joinWorkers g w]

/-- scale.yml leaves the control plane out. -/
def scale : Action (H → Node C) := inOrder [prepareWorkers g w, joinWorkers g w]

end Play

section Joined
variable {H C : Type} {master : H → Bool}

/-- The cluster that a host has joined, by the file that its role goes by. -/
def joined (master : H → Bool) (s : H → Node C) (h : H) : Option C :=
  if master h then (s h).kubeletConfig else (s h).kubeletConf

/-- All hosts that have joined a cluster have joined the same. -/
def OneCluster (master : H → Bool) (s : H → Node C) : Prop :=
  ∀ h h' c c', joined master s h = some c → joined master s h' = some c' → c = c'

/-- What a run may do: hosts that have joined are left alone, and the others join the cluster of the
first master. -/
structure Progress (g : Inventory master) (s s' : H → Node C) : Prop where
  untouched : ∀ h, joined master s h ≠ none → s' h = s h
  joins : ∀ h c, joined master s' h = some c →
    joined master s h = some c ∨ joined master s' g.first = some c

variable {g : Inventory master} {s t u : H → Node C} {h : H} {c : C}

theorem joined_congr (he : t h = s h) : joined master t h = joined master s h := by
  rw [joined, joined, he]

theorem joined_master (hm : master h = true) : joined master s h = (s h).kubeletConfig := if_pos hm

theorem joined_worker (hm : master h = false) : joined master s h = (s h).kubeletConf :=
  if_neg (by simp [hm])

theorem joined_first (g : Inventory master) (s : H → Node C) :
    joined master s g.first = (s g.first).kubeletConfig := joined_master g.first_master

theorem OneCluster.mono (hs : OneCluster master s)
    (h : ∀ m c, joined master t m = some c → joined master s m = some c) : OneCluster master t :=
  fun m m' c c' hc hc' => hs m m' c c' (h m c hc) (h m' c' hc')

theorem Progress.refl (g : Inventory master) (s : H → Node C) : Progress g s s :=
  ⟨fun _ _ => rfl, fun _ _ h => .inl h⟩

theorem Progress.trans (hst : Progress g s t) (htu : Progress g t u) : Progress g s u where
  untouched := by
    intro h hj
    have ht := hst.untouched h hj
    have hu := htu.untouched h (by rwa [joined_congr ht])
    exact hu.trans ht
  joins := by
    intro h c hj
    cases htu.joins h c hj with
    | inr hfirst => exact .inr hfirst
    | inl ht =>
      refine (hst.joins h c ht).imp id fun hfirst => ?_
      rw [← hfirst]
      exact joined_congr (htu.untouched g.first (by simp [hfirst]))

theorem Progress.joined_eq (hst : Progress g s t) (hj : joined master s h = some c) :
    joined master t h = some c := by
  rw [joined_congr (hst.untouched h (by simp [hj])), hj]

end Joined

section Calls
variable {C : Type} {c : C}

/-- A host without the file gets it for the cluster it joins. -/
theorem preserves_resetAndJoin (t : Reset × Attempt) :
    Preserves (fun n => n.kubeletConfig = none ∨ n.kubeletConfig = some c) (resetAndJoin c t) := by
  have hjoin : Preserves (fun n => n.kubeletConfig = none ∨ n.kubeletConfig = some c)
      (t.2.join c) := by
    intro n hn
    rw [Attempt.join, Exit.state_ends, Attempt.write]
    cases t.2.wroteKubeletConfig with
    | true => exact .inr rfl
    | false => exact hn
  intro n hn
  rw [resetAndJoin]
  split
  · have hreset : (t.1.remove n).kubeletConfig = none ∨ (t.1.remove n).kubeletConfig = some c := by
      rw [Reset.remove]
      cases t.1.removedKubeletConfig with
      | true => exact .inl rfl
      | false => exact hn
    cases t.1.exit with
    | zero => exact hjoin _ hreset
    | nonzero => exact hreset
    | unreachable => exact hreset
  · exact hjoin n hn

theorem preserves_join (a : Attempt) :
    Preserves (fun n => n.kubeletConf = none ∨ n.kubeletConf = some c) (a.join c) := by
  intro n hn
  rw [Attempt.join, Exit.state_ends, Attempt.write]
  cases a.wroteKubeletConf with
  | true => exact .inr rfl
  | false => exact hn

/-- All attempts of a host without the file leave it without one, or with the one it joins by. -/
theorem retry_kubeletConfig (ts : List (Reset × Attempt)) {n : Node C} (hn : n.kubeletConfig = none)
    {x : C} (hx : (retry (ts.map (resetAndJoin c)) n).state.kubeletConfig = some x) : x = c := by
  have hkeeps : Preserves (fun n => n.kubeletConfig = none ∨ n.kubeletConfig = some c)
      (retry (ts.map (resetAndJoin c))) := by
    refine Preserves.retry fun f hf => ?_
    obtain ⟨t, -, rfl⟩ := List.mem_map.mp hf
    exact preserves_resetAndJoin t
  cases hkeeps n (.inl hn) with
  | inl hnone => cases hnone.symm.trans hx
  | inr hsome => exact Option.some.inj (hx.symm.trans hsome)

theorem block_kubeletConf (a b : Attempt) {n : Node C} (hn : n.kubeletConf = none) {x : C}
    (hx : (block [a.join c] [b.join c] n).state.kubeletConf = some x) : x = c := by
  have hkeeps : Preserves (fun n => n.kubeletConf = none ∨ n.kubeletConf = some c)
      (retry ([a, b].map (·.join c))) := by
    refine Preserves.retry fun f hf => ?_
    obtain ⟨t, -, rfl⟩ := List.mem_map.mp hf
    exact preserves_join t
  rw [block_singleton] at hx
  cases hkeeps n (.inl hn) with
  | inl hnone => cases hnone.symm.trans hx
  | inr hsome => exact Option.some.inj (hx.symm.trans hsome)

theorem resetAndJoin_completed {t : Reset × Attempt} {n n' : Node C}
    (h : resetAndJoin c t n = .completed n') : n'.kubeletConfig = some c := by
  have hjoin : ∀ m, t.2.join c m = .completed n' → n'.kubeletConfig = some c := by
    intro m hm
    obtain ⟨hzero, rfl⟩ := Exit.ends_completed hm
    simp [Attempt.write, (t.2.written (.inl hzero)).1]
  rw [resetAndJoin] at h
  split at h
  · cases hr : t.1.exit with
    | zero =>
      rw [hr] at h
      exact hjoin _ h
    | nonzero =>
      rw [hr] at h
      cases h
    | unreachable =>
      rw [hr] at h
      cases h
  · exact hjoin n h

theorem join_completed {a : Attempt} {n n' : Node C} (h : a.join c n = .completed n') :
    n'.kubeletConf = some c := by
  obtain ⟨hzero, rfl⟩ := Exit.ends_completed h
  simp [Attempt.write, (a.written (.inl hzero)).2]

theorem init_completed {a : Attempt} {n n' : Node C} (h : a.init c n = .completed n') :
    n'.kubeletConfig = some c := by
  obtain ⟨hzero, rfl⟩ := Exit.ends_completed h
  have haccepted : a.exit = .zero ∨ a.fieldIsImmutable = true := by
    rw [Attempt.initExit] at hzero
    cases he : a.exit <;> simp_all
  simp [Attempt.write, (a.written haccepted).1]

end Calls

section Steps
variable {H C : Type} [DecidableEq H] {master : H → Bool} {g : Inventory master} {w : World H C}
  {s s' t : H → Node C} {c : C}

/-- A task on hosts that have not joined, each of which is given the cluster of the first master. -/
theorem onHosts_progress {hs : List H} {f : H → Action (Node C)} (hnew : ∀ h ∈ hs, joined master s h = none)
    (hjoins : ∀ h ∈ hs, ∀ c, joined master (onHosts hs f s).state h = some c →
      joined master (onHosts hs f s).state g.first = some c) : Progress g s (onHosts hs f s).state where
  untouched := by
    intro h hj
    rw [onHosts_state, if_neg fun hh => hj (hnew h hh)]
  joins := by
    intro h c hj
    by_cases hh : h ∈ hs
    · exact .inr (hjoins h hh c hj)
    · rw [joined_congr (by rw [onHosts_state, if_neg hh])] at hj
      exact .inl hj

theorem initializeFirst_state_of_ne (ran : H → Bool) {h : H} (hh : h ≠ g.first) :
    (initializeFirst g w ran s).state h = s h := by
  rw [initializeFirst, onHosts_state, if_neg]
  exact fun hm => hh (List.mem_singleton.mp (List.mem_filter.mp hm).1)

theorem initializeFirst_progress (s : H → Node C) :
    Progress g s (initializeFirst g w (alreadyRun s) s).state := by
  have hfirst : ∀ h ∈ [g.first].filter fun h => !alreadyRun s h,
      h = g.first ∧ (s h).kubeletConfig = none := by
    intro h hh
    obtain ⟨hm, hran⟩ := List.mem_filter.mp hh
    exact ⟨List.mem_singleton.mp hm, by simpa [alreadyRun] using hran⟩
  refine onHosts_progress (fun h hh => ?_) fun h hh c hj => ?_
  · obtain ⟨rfl, hnone⟩ := hfirst h hh
    rw [joined_first, hnone]
  · obtain ⟨rfl, -⟩ := hfirst h hh
    exact hj

theorem prepare_state (hs : List H) (e : H → Exit) (s : H → Node C) :
    (onHosts hs (fun h n => (e h).ends n) s).state = s := by
  funext h
  rw [onHosts_state, Exit.state_ends, ite_self]

theorem joinMasters_progress {ran : H → Bool}
    (hran : ∀ h ∈ g.others, ran h = false → (s h).kubeletConfig = none) :
    Progress g s (joinMasters g w ran s).state := by
  rw [joinMasters]
  cases hc : (s g.first).kubeletConfig with
  | none => exact Progress.refl g s
  | some c =>
    have hothers : ∀ h ∈ g.others.filter fun h => !ran h, joined master s h = none := by
      intro h hh
      obtain ⟨hm, hnot⟩ := List.mem_filter.mp hh
      rw [joined_master (g.others_master h hm)]
      exact hran h hm (by simpa using hnot)
    refine onHosts_progress hothers fun h hh x hj => ?_
    have hm := (List.mem_filter.mp hh).1
    rw [joined_first, onHosts_state, if_neg fun hf => g.first_not_mem (List.mem_filter.mp hf).1, hc]
    rw [joined_master (g.others_master h hm), onHosts_state, if_pos hh] at hj
    have hnone := hothers h hh
    rw [joined_master (g.others_master h hm)] at hnone
    rw [retry_kubeletConfig _ hnone hj]

theorem joinWorkers_progress (s : H → Node C) : Progress g s (joinWorkers g w s).state := by
  rw [joinWorkers]
  cases hc : (s g.first).kubeletConfig with
  | none => exact Progress.refl g s
  | some c =>
    have hworkers : ∀ h ∈ g.workers.filter fun h => !(s h).kubeletConf.isSome,
        master h = false ∧ (s h).kubeletConf = none := by
      intro h hh
      obtain ⟨hm, hnot⟩ := List.mem_filter.mp hh
      exact ⟨g.workers_not h hm, by simpa using hnot⟩
    have hfirst : g.first ∉ g.workers.filter fun h => !(s h).kubeletConf.isSome := fun hh =>
      g.first_not_worker (List.mem_filter.mp hh).1
    refine onHosts_progress (fun h hh => ?_) fun h hh x hj => ?_
    · rw [joined_worker (hworkers h hh).1, (hworkers h hh).2]
    · rw [joined_first, onHosts_state, if_neg hfirst, hc]
      rw [joined_worker (hworkers h hh).1, onHosts_state, if_pos hh] at hj
      rw [block_kubeletConf _ _ (hworkers h hh).2 hj]

/-- What follows the initialization of the first master leaves alone what it has written. -/
theorem controlPlane_progress (s : H → Node C) :
    Progress g (initializeFirst g w (alreadyRun s) s).state (controlPlane g w s).state := by
  rw [controlPlane]
  cases inOrder_cons_cases (initializeFirst g w (alreadyRun s))
      [prepareMasters g w, joinMasters g w (alreadyRun s)] s with
  | inr hends =>
    rw [hends]
    exact Progress.refl g _
  | inl hex =>
    obtain ⟨u, hu, hrest⟩ := hex
    have hstate : (initializeFirst g w (alreadyRun s) s).state = u := by rw [hu]; rfl
    have hothers : ∀ h ∈ g.others, alreadyRun s h = false → (u h).kubeletConfig = none := by
      intro h hh hran
      have hne : h ≠ g.first := fun he => g.first_not_mem (he ▸ hh)
      rw [← hstate, initializeFirst_state_of_ne _ hne]
      simpa [alreadyRun] using hran
    rw [hrest, hstate]
    -- the joins begin in the state that the initialization left
    cases inOrder_cons_cases (prepareMasters g w) [joinMasters g w (alreadyRun s)] u with
    | inr hends =>
      rw [hends, prepareMasters, prepare_state]
      exact Progress.refl g u
    | inl hex =>
      obtain ⟨v, hv, hrest⟩ := hex
      obtain rfl : u = v := by
        have hsame : (prepareMasters g w u).state = u := prepare_state _ _ u
        rw [hv] at hsame
        exact hsame.symm
      have hjoin := joinMasters_progress (g := g) (w := w) hothers
      rw [hrest]
      cases inOrder_cons_cases (joinMasters g w (alreadyRun s)) [] u with
      | inr hends => rwa [hends]
      | inl hex =>
        obtain ⟨x, hx, hrest⟩ := hex
        rw [hx] at hjoin
        rwa [hrest]

theorem scale_progress (s : H → Node C) : Progress g s (scale g w s).state := by
  refine inOrder_rel (Progress.refl g) (fun _ _ _ => Progress.trans) (fun t ht s => ?_) s
  simp only [List.mem_cons, List.not_mem_nil, or_false] at ht
  obtain rfl | rfl := ht
  · rw [prepareWorkers, prepare_state]
    exact Progress.refl g s
  · exact joinWorkers_progress s

theorem run_progress_initialized (s : H → Node C) :
    Progress g (initializeFirst g w (alreadyRun s) s).state (run g w s).state := by
  have hmasters := controlPlane_progress (g := g) (w := w) s
  rw [run]
  cases inOrder_cons_cases (controlPlane g w) [prepareWorkers g w, joinWorkers g w] s with
  | inr hends => rwa [hends]
  | inl hex =>
    obtain ⟨u, hu, hrest⟩ := hex
    rw [hu] at hmasters
    rw [hrest]
    exact hmasters.trans (scale_progress u)

theorem run_progress (s : H → Node C) : Progress g s (run g w s).state :=
  (initializeFirst_progress s).trans (run_progress_initialized s)

/-- Where the initialization gives up, so does the run. -/
theorem run_state_of_stopped (h : (initializeFirst g w (alreadyRun s) s).isCompleted = false) :
    (run g w s).state = (initializeFirst g w (alreadyRun s) s).state := by
  rw [run, inOrder, controlPlane, inOrder]
  cases he : initializeFirst g w (alreadyRun s) s with
  | completed u =>
    rw [he] at h
    cases h
  | failed u => rfl
  | aborted u => rfl

end Steps

end Kubespray.ControlPlane

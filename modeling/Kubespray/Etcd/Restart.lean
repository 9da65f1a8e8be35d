import Kubespray.Etcd.CertSync

/-! The tasks and handlers of the etcd role that start etcd, in the play that sets the
cluster up, and when they do so after the role has replaced a member's certificates. -/
namespace Kubespray.Etcd

inductive Handler where
  | restartEtcd | setEtcdSecretChanged
  deriving DecidableEq

inductive Event where
  | certsReplaced | etcdStarted
  deriving DecidableEq

/-- What one play leaves on a host for the next one. -/
structure EtcdService where
  etcdSecretChanged : Bool
  /-- The content of /etc/etcd.env. -/
  env : Option String
  running : Bool
  deriving DecidableEq

/-- A host during the play; the log has the newest event first. -/
structure EtcdHost extends EtcdService where
  notified : List Handler
  log : List Event
  deriving DecidableEq

/-- The lines of etcd.env.j2 around ETCD_INITIAL_CLUSTER_STATE and ETCD_INITIAL_CLUSTER;
they do not change within a run. -/
structure EnvLines where
  before : String
  between : String
  after : String

def EnvLines.render (e : EnvLines) (healthy : Bool) (peers : String) : String :=
  e.before ++ "ETCD_INITIAL_CLUSTER_STATE=" ++ (if healthy then "existing" else "new") ++
    e.between ++ "ETCD_INITIAL_CLUSTER=" ++ peers ++ e.after

/-- What the role finds on the hosts and is told by etcd and systemd during the run. -/
structure Surroundings where
  envLines : String → EnvLines
  /-- etcd_peer_addresses -/
  peers : String
  /-- etcd_peer_addresses as join_etcd_member.yml sets it for the host. -/
  joinPeers : String → String
  /-- etcd_cluster_is_healthy.rc == 0 at the first check. -/
  healthy : Bool
  /-- The same after "Wait for etcd cluster to be healthy". -/
  becomesHealthy : Bool
  /-- etcd_member_in_cluster.rc == 0 -/
  inCluster : String → Bool
  /-- etcd starts when configure.yml asks for it. -/
  starts : String → Bool
  /-- etcd starts once the host has been added to the cluster. -/
  startsJoined : String → Bool

namespace EtcdHost
variable (s : EtcdHost)

def notify (changed : Bool) (x : Handler) : EtcdHost :=
  if changed then { s with notified := addKey x s.notified } else s

/-- Set default value for etcd_secret_changed to false. -/
def checkCerts : EtcdHost := { s with etcdSecretChanged := false }

/-- gen_certs_script.yml on one host. The slurp tasks never report a change, and the copy
on nodes has `changed_when: false`. -/
def genCertsScript (ranScript replaced : Bool) : EtcdHost :=
  let s := s.notify ranScript .setEtcdSecretChanged
  let s := (s.notify false .setEtcdSecretChanged).notify false .setEtcdSecretChanged
  let s := s.notify false .setEtcdSecretChanged
  if replaced then { s with log := .certsReplaced :: s.log } else s

/-- `state: restarted` -/
def restarted : EtcdHost := { s with running := true, log := .etcdStarted :: s.log }

/-- `state: started` -/
def started (ok : Bool) : Option EtcdHost :=
  if s.running then some s else if ok then some s.restarted else none

/-- refresh_config.yml -/
def refreshConfig (text : String) : EtcdHost :=
  { s with env := some text }.notify (s.env ≠ some text) .restartEtcd

/-- Restart etcd if certs changed. -/
def restartIfCertsChanged : EtcdHost := if s.etcdSecretChanged then s.restarted else s

/-- The handlers that were notified, in the order of handlers/main.yml. -/
def flushHandlers : EtcdHost :=
  let s' := if .restartEtcd ∈ s.notified then s.restarted else s
  let s' := if .setEtcdSecretChanged ∈ s.notified then { s' with etcdSecretChanged := true } else s'
  { s' with notified := [] }

variable (w : Surroundings) (h : String)

/-- configure.yml on an etcd host; none where a task fails. -/
def configure : Option EtcdHost := do
  let s := s.refreshConfig ((w.envLines h).render w.healthy w.peers)
  -- ignore_errors: "{{ etcd_cluster_is_healthy.rc == 0 }}"
  let s ← (s.started (w.starts h)).or (if w.healthy then some s else none)
  if !w.becomesHealthy then none
  else if w.inCluster h then some s
  else (s.refreshConfig ((w.envLines h).render true (w.joinPeers h))).started (w.startsJoined h)

/-- The rest of main.yml on an etcd host, up to the end of the play. -/
def setUp : Option EtcdHost := do
  let s ← s.configure w h
  let s := s.refreshConfig ((w.envLines h).render true w.peers)
  let s := s.restartIfCertsChanged
  let s := s.refreshConfig ((w.envLines h).render true w.peers)
  some s.flushHandlers

end EtcdHost

/-- The role changed one of the host's own ca, member and admin files. -/
def OwnFilesReplaced (dirs final : CertDirs) (h : String) : Prop :=
  ∃ f ∈ Layout.memberFilesOf h, (final h).lookup f ≠ (dirs h).lookup f

instance (dirs final : CertDirs) (h : String) : Decidable (OwnFilesReplaced dirs final h) :=
  inferInstanceAs (Decidable (∃ f ∈ Layout.memberFilesOf h, _))

section Role
variable {Digest : Type} [DecidableEq Digest] (checksum : Pem → Digest)
variable (force : Bool) (l : Layout) (facts : SyncFacts) (w : Surroundings)

/-- main.yml and the handlers at the end of the play on one host, given the certificate
directories before and after the tasks that write them. -/
def etcdRoleOn (dirs final : CertDirs) (h : String) (s : EtcdService) : Option EtcdHost :=
  let s : EtcdHost := { s with notified := [], log := [] }
  let s := s.checkCerts.genCertsScript
    (genCerts force l (dirs l.first) && h = l.first) (OwnFilesReplaced dirs final h)
  if h ∈ l.etcd then s.setUp w h else some s.flushHandlers

/-- The etcd role on the hosts of the play. After the certificates no task of one host
reads what another host's tasks did, other than through the answers in `w`. -/
def etcdRole (play : Play l) (dirs : CertDirs) (n : Nat) (services : String → EtcdService) :
    Option (CertDirs × List (String × EtcdHost)) := do
  let final ← genCertsScript checksum force l facts play dirs n
  let hosts ← play.hosts.mapM fun h =>
    (etcdRoleOn force l w dirs final h (services h)).map (h, ·)
  some (final, hosts)

end Role

namespace EtcdHost

/-- etcd was started, and its certificates were not replaced since. -/
def StartedSince (s : EtcdHost) : Prop := .etcdStarted ∈ s.log.takeWhile (· ≠ .certsReplaced)

instance (s : EtcdHost) : Decidable s.StartedSince :=
  inferInstanceAs (Decidable (_ ∈ List.takeWhile _ _))

section Lemmas
variable (s : EtcdHost)

@[simp] theorem notify_log (c : Bool) (x : Handler) : (s.notify c x).log = s.log := by
  cases c <;> rfl

@[simp] theorem notify_running (c : Bool) (x : Handler) : (s.notify c x).running = s.running := by
  cases c <;> rfl

@[simp] theorem notify_env (c : Bool) (x : Handler) : (s.notify c x).env = s.env := by
  cases c <;> rfl

@[simp] theorem notify_etcdSecretChanged (c : Bool) (x : Handler) :
    (s.notify c x).etcdSecretChanged = s.etcdSecretChanged := by
  cases c <;> rfl

@[simp] theorem mem_notify_notified (c : Bool) (x y : Handler) :
    y ∈ (s.notify c x).notified ↔ y ∈ s.notified ∨ (c = true ∧ y = x) := by
  cases c <;> simp [notify]

@[simp] theorem refreshConfig_log (t : String) : (s.refreshConfig t).log = s.log := by
  simp [refreshConfig]

@[simp] theorem refreshConfig_running (t : String) :
    (s.refreshConfig t).running = s.running := by
  simp [refreshConfig]

@[simp] theorem refreshConfig_env (t : String) : (s.refreshConfig t).env = some t := by
  simp [refreshConfig]

@[simp] theorem refreshConfig_etcdSecretChanged (t : String) :
    (s.refreshConfig t).etcdSecretChanged = s.etcdSecretChanged := by
  simp [refreshConfig]

@[simp] theorem restartEtcd_mem_refreshConfig (t : String) :
    .restartEtcd ∈ (s.refreshConfig t).notified ↔ .restartEtcd ∈ s.notified ∨ s.env ≠ some t := by
  simp [refreshConfig]

@[simp] theorem startedSince_restarted : s.restarted.StartedSince := by
  simp [StartedSince, restarted]

theorem startedSince_congr {s t : EtcdHost} (h : s.log = t.log) :
    s.StartedSince ↔ t.StartedSince := by
  rw [StartedSince, StartedSince, h]

@[simp] theorem startedSince_refreshConfig (t : String) :
    (s.refreshConfig t).StartedSince ↔ s.StartedSince :=
  startedSince_congr (s.refreshConfig_log t)

/-- Nothing that runs before the guard sets the fact it reads. -/
theorem restartIfCertsChanged_of_unset (h : s.etcdSecretChanged = false) :
    s.restartIfCertsChanged = s := by
  simp [restartIfCertsChanged, h]

theorem startedSince_flushHandlers :
    s.flushHandlers.StartedSince ↔ s.StartedSince ∨ .restartEtcd ∈ s.notified := by
  by_cases hr : Handler.restartEtcd ∈ s.notified
  · have hl : s.flushHandlers.log = s.restarted.log := by
      simp only [flushHandlers, hr, if_true]
      split <;> rfl
    simp [startedSince_congr hl, hr]
  · have hl : s.flushHandlers.log = s.log := by
      simp only [flushHandlers, hr, if_false]
      split <;> rfl
    simp [startedSince_congr hl, hr]

theorem started_spec (ok : Bool) (s' : EtcdHost) (h : s.started ok = some s') :
    s'.env = s.env ∧ s'.notified = s.notified ∧ s'.etcdSecretChanged = s.etcdSecretChanged ∧
      s'.running = true ∧ (s'.StartedSince ↔ s.StartedSince ∨ s.running = false) := by
  rw [started] at h
  split at h
  · rename_i hr
    obtain rfl := Option.some.inj h
    exact ⟨rfl, rfl, rfl, hr, by simp [hr]⟩
  · rename_i hr
    split at h
    · obtain rfl := Option.some.inj h
      exact ⟨rfl, rfl, rfl, rfl, by simp [hr]⟩
    · cases h

theorem log_suffix_started (ok : Bool) (s' : EtcdHost) (h : s.started ok = some s') :
    s.log <:+ s'.log := by
  rw [started] at h
  split at h
  · exact Option.some.inj h ▸ List.suffix_rfl
  · split at h
    · exact Option.some.inj h ▸ List.suffix_cons _ _
    · cases h

theorem log_suffix_restartIfCertsChanged : s.log <:+ s.restartIfCertsChanged.log := by
  rw [restartIfCertsChanged]
  split
  · exact List.suffix_cons _ _
  · exact List.suffix_rfl

theorem log_suffix_flushHandlers : s.log <:+ s.flushHandlers.log := by
  rw [flushHandlers]
  split <;> split <;> first | exact List.suffix_cons _ _ | exact List.suffix_rfl

theorem genCertsScript_spec (ranScript replaced : Bool) (hn : s.notified = []) (hl : s.log = []) :
    (s.checkCerts.genCertsScript ranScript replaced).etcdSecretChanged = false ∧
      Handler.restartEtcd ∉ (s.checkCerts.genCertsScript ranScript replaced).notified ∧
      (s.checkCerts.genCertsScript ranScript replaced).env = s.env ∧
      (s.checkCerts.genCertsScript ranScript replaced).running = s.running ∧
      (s.checkCerts.genCertsScript ranScript replaced).log =
        if replaced then [.certsReplaced] else [] := by
  cases replaced <;> cases ranScript <;> simp [genCertsScript, checkCerts, notify, hn, hl, addKey]

theorem started_eq_none_iff (ok : Bool) : s.started ok = none ↔ s.running = false ∧ ok = false := by
  cases hr : s.running <;> cases ok <;> simp [started, hr]

end Lemmas

/-- What etcd.env is rendered to in the run, in order. -/
def renderings (w : Surroundings) (h : String) : List String :=
  [(w.envLines h).render w.healthy w.peers] ++
    (if w.inCluster h then [] else [(w.envLines h).render true (w.joinPeers h)]) ++
    [(w.envLines h).render true w.peers]

theorem ne_or_ne_iff (e : Option String) (a b : String) :
    e ≠ some a ∨ a ≠ b ↔ e ≠ some a ∨ e ≠ some b := by
  by_cases h : e = some a
  · simp [h]
  · simp [h]

/-- configure.yml starts etcd where it was stopped, at once or after the join, and notifies
the handler where it changed etcd.env. -/
theorem configure_spec (w : Surroundings) (h : String) (s s' : EtcdHost)
    (hsecret : s.etcdSecretChanged = false) (hnot : Handler.restartEtcd ∉ s.notified)
    (hlog : ¬ s.StartedSince) (hrun : s.configure w h = some s') :
    s'.etcdSecretChanged = false ∧
      (s'.StartedSince ↔ s.running = false ∧ (w.starts h = true ∨ w.inCluster h = false)) ∧
      (Handler.restartEtcd ∈ s'.notified ∨ s'.env ≠ some ((w.envLines h).render true w.peers) ↔
        ∃ r ∈ renderings w h, s.env ≠ some r) := by
  rw [configure] at hrun
  set s1 := s.refreshConfig ((w.envLines h).render w.healthy w.peers) with hs1
  obtain ⟨s2, hs2, hrest⟩ := Option.bind_eq_some_iff.mp hrun
  -- after the first attempt to start etcd
  have h2 : s2.env = s1.env ∧ s2.notified = s1.notified ∧
      s2.etcdSecretChanged = s1.etcdSecretChanged ∧
      s2.running = (s.running || w.starts h) ∧
      (s2.StartedSince ↔ s.running = false ∧ w.starts h = true) := by
    cases hst : s1.started (w.starts h) with
    | some t =>
      obtain rfl : t = s2 := by simpa [hst] using hs2
      obtain ⟨he, hn, hc, hr, hlogs⟩ := s1.started_spec _ t hst
      have hns : ¬ (s1.running = false ∧ w.starts h = false) := by
        rw [← started_eq_none_iff, hst]
        exact nofun
      refine ⟨he, hn, hc, ?_, ?_⟩
      · cases hrs : s.running <;> cases hws : w.starts h <;> simp_all
      · cases hrs : s.running <;> cases hws : w.starts h <;> simp_all
    | none =>
      obtain ⟨hr, hw⟩ := (s1.started_eq_none_iff _).mp hst
      have hh : w.healthy = true ∧ s1 = s2 := by simpa [hst] using hs2
      obtain ⟨-, rfl⟩ := hh
      have hrs : s.running = false := by simpa [hs1] using hr
      exact ⟨rfl, rfl, rfl, by simp [hs1, hrs, hw], by simp [hs1, hlog, hw]⟩
  obtain ⟨he, hn, hc, hr, hlog2⟩ := h2
  cases hb : w.becomesHealthy with
  | false => simp [hb] at hrest
  | true =>
    cases hin : w.inCluster h with
    | true =>
      obtain rfl : s2 = s' := by simpa [hb, hin] using hrest
      refine ⟨by simp [hc, hs1, hsecret], by simp [hlog2], ?_⟩
      have hrender : (∃ r ∈ renderings w h, s.env ≠ some r) ↔
          s.env ≠ some ((w.envLines h).render w.healthy w.peers) ∨
            s.env ≠ some ((w.envLines h).render true w.peers) := by
        simp [renderings, hin]
      rw [hrender, ← ne_or_ne_iff, hn, he, hs1, restartEtcd_mem_refreshConfig, refreshConfig_env,
        or_iff_right hnot, ne_eq (some _), Option.some.injEq]
    | false =>
      have hjoin : (s2.refreshConfig ((w.envLines h).render true (w.joinPeers h))).started
          (w.startsJoined h) = some s' := by simpa [hb, hin] using hrest
      obtain ⟨he', hn', hc', -, hlog'⟩ := started_spec _ _ s' hjoin
      refine ⟨by simp [hc', hc, hs1, hsecret], ?_, ?_⟩
      · rw [hlog', startedSince_refreshConfig, hlog2, refreshConfig_running, hr]
        cases s.running <;> cases w.starts h <;> simp
      · have hrender : (∃ r ∈ renderings w h, s.env ≠ some r) ↔
            s.env ≠ some ((w.envLines h).render w.healthy w.peers) ∨
              s.env ≠ some ((w.envLines h).render true (w.joinPeers h)) ∨
                s.env ≠ some ((w.envLines h).render true w.peers) := by
          simp [renderings, hin]
        rw [hrender, hn', he', restartEtcd_mem_refreshConfig, hn, he, hs1,
          restartEtcd_mem_refreshConfig, refreshConfig_env, refreshConfig_env, or_iff_right hnot,
          ne_eq (some _), ne_eq (some _), Option.some.injEq, Option.some.injEq]
        by_cases hsame : s.env = some ((w.envLines h).render w.healthy w.peers)
        · simp only [hsame, ne_eq, not_true_eq_false, false_or, Option.some.injEq]
          by_cases hj : (w.envLines h).render w.healthy w.peers =
              (w.envLines h).render true (w.joinPeers h)
          · simp [hj]
          · simp [hj]
        · simp [hsame]

theorem log_suffix_configure (w : Surroundings) (h : String) (s s' : EtcdHost)
    (hrun : s.configure w h = some s') : s.log <:+ s'.log := by
  rw [configure] at hrun
  obtain ⟨s2, hs2, hrest⟩ := Option.bind_eq_some_iff.mp hrun
  have h2 : s.log <:+ s2.log := by
    rw [← s.refreshConfig_log ((w.envLines h).render w.healthy w.peers)]
    rcases Option.or_eq_some_iff.mp hs2 with hst | ⟨-, hst⟩
    · exact log_suffix_started _ _ _ hst
    · split at hst
      · exact Option.some.inj hst ▸ List.suffix_rfl
      · cases hst
  split at hrest
  · cases hrest
  · split at hrest
    · exact Option.some.inj hrest ▸ h2
    · have h3 := log_suffix_started _ _ _ hrest
      rw [refreshConfig_log] at h3
      exact h2.trans h3

theorem log_suffix_setUp (w : Surroundings) (h : String) (s s' : EtcdHost)
    (hrun : s.setUp w h = some s') : s.log <:+ s'.log := by
  rw [setUp] at hrun
  obtain ⟨s1, hs1, hrest⟩ := Option.bind_eq_some_iff.mp hrun
  obtain rfl := Option.some.inj hrest
  have h1 := log_suffix_configure w h s s1 hs1
  have h2 := log_suffix_restartIfCertsChanged
    (s1.refreshConfig ((w.envLines h).render true w.peers))
  rw [refreshConfig_log] at h2
  have h3 := log_suffix_flushHandlers
    ((s1.refreshConfig ((w.envLines h).render true w.peers)).restartIfCertsChanged.refreshConfig
      ((w.envLines h).render true w.peers))
  rw [refreshConfig_log] at h3
  exact (h1.trans h2).trans h3

/-- etcd is started in the run exactly when it was stopped and came up, at once or after the
join, or some rendering of etcd.env is not what the host had. -/
theorem setUp_startedSince_iff (w : Surroundings) (h : String) (s s' : EtcdHost)
    (hsecret : s.etcdSecretChanged = false) (hnot : Handler.restartEtcd ∉ s.notified)
    (hlog : ¬ s.StartedSince) (hrun : s.setUp w h = some s') :
    s'.StartedSince ↔ (s.running = false ∧ (w.starts h = true ∨ w.inCluster h = false)) ∨
      ∃ r ∈ renderings w h, s.env ≠ some r := by
  rw [setUp] at hrun
  obtain ⟨s1, hs1, hrest⟩ := Option.bind_eq_some_iff.mp hrun
  obtain ⟨hsecret1, hstart, henv⟩ := configure_spec w h s s1 hsecret hnot hlog hs1
  have hguard : (s1.refreshConfig ((w.envLines h).render true w.peers)).restartIfCertsChanged =
      s1.refreshConfig ((w.envLines h).render true w.peers) :=
    restartIfCertsChanged_of_unset _ (by simp [hsecret1])
  simp only [hguard] at hrest
  obtain rfl := Option.some.inj hrest
  rw [startedSince_flushHandlers, startedSince_refreshConfig, startedSince_refreshConfig, hstart,
    restartEtcd_mem_refreshConfig, restartEtcd_mem_refreshConfig, refreshConfig_env, henv]
  simp

end EtcdHost

section Role
variable {Digest : Type} [DecidableEq Digest] (checksum : Pem → Digest)
variable (force : Bool) (l : Layout) (facts : SyncFacts) (w : Surroundings)

theorem mapM_pair_spec {β : Type} (f : String → Option β) (l : List String)
    (r : List (String × β)) (h : l.mapM (fun x => (f x).map (x, ·)) = some r) :
    r.map Prod.fst = l ∧ ∀ e ∈ r, f e.1 = some e.2 := by
  induction l generalizing r with
  | nil =>
    obtain rfl : [] = r := by simpa using h
    simp
  | cons x l ih =>
    rw [List.mapM_cons] at h
    obtain ⟨e, he, hrest⟩ := Option.bind_eq_some_iff.mp h
    obtain ⟨r', hr', heq⟩ := Option.bind_eq_some_iff.mp hrest
    obtain rfl : e :: r' = r := Option.some.inj heq
    obtain ⟨b, hb, rfl⟩ := Option.map_eq_some_iff.mp he
    obtain ⟨hfst, hall⟩ := ih r' hr'
    refine ⟨by simp [hfst], fun e hm => ?_⟩
    rcases List.mem_cons.mp hm with rfl | hm
    · exact hb
    · exact hall e hm

theorem etcdRole_spec (play : Play l) (dirs final : CertDirs) (n : Nat)
    (services : String → EtcdService) (hosts : List (String × EtcdHost))
    (hrun : etcdRole checksum force l facts w play dirs n services = some (final, hosts)) :
    hosts.map Prod.fst = play.hosts ∧
      ∀ e ∈ hosts, etcdRoleOn force l w dirs final e.1 (services e.1) = some e.2 := by
  rw [etcdRole] at hrun
  obtain ⟨final', -, hrest⟩ := Option.bind_eq_some_iff.mp hrun
  obtain ⟨hosts', hmap, heq⟩ := Option.bind_eq_some_iff.mp hrest
  obtain ⟨rfl, rfl⟩ := Prod.mk.inj (Option.some.inj heq)
  exact mapM_pair_spec _ _ _ hmap

/-- No etcd host ends the play with etcd running on certificates that were replaced. -/
def RestartsReplaced (dirs final : CertDirs) (hosts : List (String × EtcdHost)) : Prop :=
  ∀ e ∈ hosts, e.1 ∈ l.etcd → OwnFilesReplaced dirs final e.1 → e.2.StartedSince

/-- On each etcd host whose own certificate files the role replaces, etcd is started after
that exactly when it was stopped and comes up, at once or after joining the cluster, or when
some rendering of etcd.env in the run differs from the file that was there. -/
theorem replaced_restarted_iff (play : Play l) (dirs final : CertDirs) (n : Nat)
    (services : String → EtcdService) (hosts : List (String × EtcdHost))
    (hrun : etcdRole checksum force l facts w play dirs n services = some (final, hosts)) :
    hosts.map Prod.fst = play.hosts ∧ ∀ e ∈ hosts, e.1 ∈ l.etcd →
      OwnFilesReplaced dirs final e.1 → Event.certsReplaced ∈ e.2.log ∧
        (e.2.StartedSince ↔
          ((services e.1).running = false ∧
            (w.starts e.1 = true ∨ w.inCluster e.1 = false)) ∨
          ∃ r ∈ EtcdHost.renderings w e.1, (services e.1).env ≠ some r) := by
  obtain ⟨hfst, hall⟩ := etcdRole_spec checksum force l facts w play dirs final n services hosts hrun
  refine ⟨hfst, fun e hm he hrep => ?_⟩
  have hon := hall e hm
  simp only [etcdRoleOn, he, if_true, hrep, decide_true] at hon
  obtain ⟨hsecret, hnot, henv, hrunning, hlog⟩ := EtcdHost.genCertsScript_spec
    { services e.1 with notified := [], log := [] } (genCerts force l (dirs l.first) && e.1 = l.first)
    true rfl rfl
  have hnew : ¬ EtcdHost.StartedSince (EtcdHost.genCertsScript (EtcdHost.checkCerts
      { services e.1 with notified := [], log := [] })
        (genCerts force l (dirs l.first) && e.1 = l.first) true) := by
    simp [EtcdHost.StartedSince, hlog]
  constructor
  · exact (EtcdHost.log_suffix_setUp w e.1 _ _ hon).subset (by simp [hlog])
  · rw [EtcdHost.setUp_startedSince_iff w e.1 _ e.2 hsecret hnot hnew hon, henv, hrunning]

end Role

def oneHostPlay : Play oneHost where
  hosts := ["node1"]
  nodup := by decide
  head_first := rfl

def oneHostSurroundings : Surroundings where
  envLines := fun _ => ⟨"", "\n", "\n"⟩
  peers := "etcd1=https://10.0.0.1:2380"
  joinPeers := fun _ => "etcd1=https://10.0.0.1:2380"
  healthy := true
  becomesHealthy := true
  inCluster := fun _ => true
  starts := fun _ => true
  startsJoined := fun _ => true

def installed : CertDir :=
  (caPair 0).setAll (issuedFiles 0 1 ["node1"] ["node1"])

def upAndRunning : EtcdService where
  etcdSecretChanged := false
  env := some ((oneHostSurroundings.envLines "node1").render true oneHostSurroundings.peers)
  running := true

/-- A refresh of all certificates leaves etcd running on the old ones. -/
theorem refresh_without_restart :
    (etcdRole id true oneHost noFacts oneHostSurroundings oneHostPlay (fun _ => installed) 4
      (fun _ => upAndRunning)).isSome ∧
    ¬ ∀ final hosts, etcdRole id true oneHost noFacts oneHostSurroundings oneHostPlay
        (fun _ => installed) 4 (fun _ => upAndRunning) = some (final, hosts) →
      RestartsReplaced oneHost (fun _ => installed) final hosts := by
  refine ⟨by decide, fun h => ?_⟩
  have hrep : (etcdRole id true oneHost noFacts oneHostSurroundings oneHostPlay
      (fun _ => installed) 4 (fun _ => upAndRunning)).map
        (fun r => decide (OwnFilesReplaced (fun _ => installed) r.1 "node1")) = some true := by
    decide
  have hlog : (etcdRole id true oneHost noFacts oneHostSurroundings oneHostPlay
      (fun _ => installed) 4 (fun _ => upAndRunning)).map
        (fun r => r.2.map fun e => (e.1, e.2.log)) = some [("node1", [.certsReplaced])] := by
    decide
  cases hrun : etcdRole id true oneHost noFacts oneHostSurroundings oneHostPlay
      (fun _ => installed) 4 (fun _ => upAndRunning) with
  | none => simp [hrun] at hrep
  | some r =>
    simp only [hrun, Option.map_some, Option.some.injEq, decide_eq_true_iff] at hrep hlog
    obtain ⟨e, he, heq⟩ : ∃ e ∈ r.2, (e.1, e.2.log) = ("node1", [Event.certsReplaced]) :=
      List.mem_map.mp (hlog ▸ List.mem_singleton_self _)
    obtain ⟨h1, h2⟩ := Prod.mk.inj heq
    have hs := h r.1 r.2 hrun e he (h1 ▸ by decide) (h1 ▸ hrep)
    simp [EtcdHost.StartedSince, h2] at hs

def firstInstall : Surroundings := { oneHostSurroundings with healthy := false }

def notInstalled : EtcdService := ⟨false, none, false⟩

def firstRun : CertDirs × List (String × EtcdHost) :=
  (etcdRole id true oneHost noFacts firstInstall oneHostPlay (fun _ => ∅) 0
    (fun _ => notInstalled)).get (by decide)

/-- A first installation starts etcd on its certificates. -/
theorem first_install_starts : RestartsReplaced oneHost (fun _ => ∅) firstRun.1 firstRun.2 := by
  have hsome : (etcdRole id true oneHost noFacts firstInstall oneHostPlay (fun _ => ∅) 0
      (fun _ => notInstalled)).isSome := by decide
  have hrun : etcdRole id true oneHost noFacts firstInstall oneHostPlay (fun _ => ∅) 0
      (fun _ => notInstalled) = some (firstRun.1, firstRun.2) := (Option.some_get hsome).symm
  intro e hm he hrep
  have hiff := (replaced_restarted_iff id true oneHost noFacts firstInstall oneHostPlay
    (fun _ => ∅) firstRun.1 0 (fun _ => notInstalled) firstRun.2 hrun).2 e hm he hrep
  exact hiff.2.mpr (.inl ⟨rfl, .inl rfl⟩)

end Kubespray.Etcd

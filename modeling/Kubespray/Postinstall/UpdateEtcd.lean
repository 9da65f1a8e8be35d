import Kubespray.Lib.LineEdit

/-! update-etcd.yaml: the edits of etcd.yaml after the installation, the marker file that
switches some of them off, and what a second attempt makes of a first that was cut short. -/
namespace Kubespray.Postinstall
open Grep LineEdit

structure EtcdSettings where
  prometheusK8sAppLabel : Bool := true
  etcdTimezone : Bool := true
  masterIpInListenMetricsUrls : Bool := true
  /-- The fields of timezone_extra_volumes. -/
  timezoneName : String
  timezoneMountPath : String
  timezoneHostPath : String
  ip : Option String
  fallbackIp : String

/-- A master: whether etcd_deployed is there, and the lines of etcd.yaml. -/
structure Node where
  deployed : Bool
  manifest : List String
  deriving DecidableEq

abbrev Edit := List String → List String

/-- A task with a `when` condition. -/
def onlyWhen (c : Bool) (e : Edit) : Edit := if c then e else id

def pattern (text : String) : Pattern := compile text.toList

section Tasks
variable (s : EtcdSettings)

def labelLine : String := "    k8s-app: etcd"

/-- update etcd | Add k8s-app label for prometheus -/
def addLabel : Edit :=
  onlyWhen s.prometheusK8sAppLabel (lineinfile (pattern "k8s-app: etcd") (pattern "labels:") labelLine)

/-- update etcd | Add etcd timezone(mountPath), item by item. -/
def addTimezoneMountPath : List Edit :=
  ["      name: " ++ s.timezoneName, "    - mountPath: " ++ s.timezoneMountPath].map
    (insertAfter (pattern "volumeMounts:"))

/-- update etcd | Add etcd timezone(hostPath), item by item. -/
def addTimezoneHostPath : List Edit :=
  ["    name: " ++ s.timezoneName, "      path: " ++ s.timezoneHostPath, "  - hostPath: "].map
    (insertAfter (pattern "volumes:"))

def metricsUrl : String := "--listen-metrics-urls=http://127.0.0.1:2381"

/-- update etcd | Add host ip to etcd's command/listen-metrics-urls -/
def addMetricsUrl : Edit :=
  replace (pattern metricsUrl)
    ("--listen-metrics-urls=http://127.0.0.1:2381,http://" ++ s.ip.getD s.fallbackIp ++ ":2381")

/-- The edits that are made only where etcd_deployed was not found. -/
def gatedEdits (deployed : Bool) : List Edit :=
  (addTimezoneMountPath s ++ addTimezoneHostPath s).map (onlyWhen (s.etcdTimezone && !deployed)) ++
    [onlyWhen (s.masterIpInListenMetricsUrls && !deployed) (addMetricsUrl s)]

def onManifest (e : Edit) (n : Node) : Node := { n with manifest := e n.manifest }

/-- create file etcd deployed -/
def createMarker (deployed : Bool) (n : Node) : Node :=
  if deployed then n else { n with deployed := true }

/-- Everything an attempt does after the check for etcd_deployed, loops item by item; the restart
of etcd and the wait for it do not change the manifest. -/
def steps (deployed : Bool) : List (Node → Node) :=
  createMarker deployed :: (addLabel s :: gatedEdits s deployed).map onManifest ++ [id, id]

/-- An attempt that goes through. -/
def updateEtcd (n : Node) : Node := applyAll (steps s n.deployed) n

/-- An attempt that fails when `done` of its steps have been made. -/
def interrupted (done : Nat) (n : Node) : Node := applyAll ((steps s n.deployed).take done) n

end Tasks

section Edits
variable (s : EtcdSettings)

theorem addLabel_idem (m : List String) : addLabel s (addLabel s m) = addLabel s m := by
  rw [addLabel]
  cases s.prometheusK8sAppLabel with
  | false => rfl
  | true => exact lineinfile_idem _ _ _ m (by decide)

theorem applyAll_onManifest (es : List Edit) (n : Node) :
    applyAll (es.map onManifest) n = { n with manifest := applyAll es n.manifest } := by
  induction es generalizing n with
  | nil => rfl
  | cons e es ih => exact ih (onManifest e n)

/-- Where the marker is found, the gated edits change nothing. -/
theorem gatedEdits_deployed (m : List String) : ∀ e ∈ gatedEdits s true, e m = m := by
  intro e he
  have hid : e = id := by
    rw [gatedEdits, List.mem_append, List.mem_map] at he
    cases he with
    | inl hzone =>
      obtain ⟨f, -, rfl⟩ := hzone
      simp [onlyWhen]
    | inr hmetrics => simpa [onlyWhen] using hmetrics
  rw [hid, id]

theorem steps_manifest (deployed : Bool) (done : Nat) (n : Node) :
    (applyAll ((steps s deployed).take (done + 1)) n).manifest =
      applyAll ((addLabel s :: gatedEdits s deployed).take done) n.manifest := by
  have hids : ∀ k x, applyAll (([id, id] : List (Node → Node)).take k) x = x := fun k x =>
    applyAll_of_forall_eq fun e he => by
      have hid : e = id := by simpa using List.mem_of_mem_take he
      rw [hid, id]
  have hmarker : ∀ x : Node, (createMarker deployed x).manifest = x.manifest := by
    intro x
    rw [createMarker]
    split <;> rfl
  rw [steps, List.cons_append, List.take_succ_cons, applyAll, List.foldl_cons, ← applyAll,
    List.take_append, applyAll_append, hids, ← List.map_take, applyAll_onManifest, hmarker]

theorem updateEtcd_manifest (n : Node) : (updateEtcd s n).manifest =
    applyAll (gatedEdits s n.deployed) (addLabel s n.manifest) := by
  have hall : (steps s n.deployed).take (9 + 1) = steps s n.deployed :=
    List.take_of_length_le (by simp [steps, gatedEdits, addTimezoneMountPath, addTimezoneHostPath])
  have hedits : (addLabel s :: gatedEdits s n.deployed).take 9 =
      addLabel s :: gatedEdits s n.deployed :=
    List.take_of_length_le (by simp [gatedEdits, addTimezoneMountPath, addTimezoneHostPath])
  have h := steps_manifest s n.deployed 9 n
  rw [hall, hedits] at h
  exact h

/-- The manifest at the cut, with the label if the cut was before that. -/
def cutManifest (done : Nat) (n : Node) : List String :=
  applyAll ((gatedEdits s n.deployed).take (done - 2)) (addLabel s n.manifest)

theorem rerun_marked (m : List String) :
    (updateEtcd s ⟨true, m⟩).manifest = addLabel s m := by
  rw [updateEtcd_manifest, applyAll_of_forall_eq fun e he => gatedEdits_deployed s _ e he]

theorem interrupted_deployed (done : Nat) (n : Node) (h : n.deployed = true ∨ done ≠ 0) :
    (interrupted s done n).deployed = true := by
  have hrest : ∀ e ∈ (addLabel s :: gatedEdits s n.deployed).map onManifest ++ [id, id],
      ∀ x : Node, x.deployed = true → (e x).deployed = true := by
    intro e he x hx
    rw [List.mem_append, List.mem_map] at he
    cases he with
    | inl hedit =>
      obtain ⟨f, -, rfl⟩ := hedit
      exact hx
    | inr hid =>
      have hid : e = id := by simpa using hid
      rw [hid]
      exact hx
  cases done with
  | zero => exact h.resolve_right fun hne => hne rfl
  | succ done =>
    rw [interrupted, steps, List.cons_append, List.take_succ_cons]
    change (applyAll _ (createMarker n.deployed n)).deployed = true
    refine applyAll_keeps (fun e he => hrest e (List.mem_of_mem_take he)) ?_
    rw [createMarker]
    split
    · assumption
    · rfl

/-- The second attempt makes the label edit on what the first left. -/
theorem rerun_manifest (done : Nat) (n : Node) (hdone : done ≠ 0) :
    (updateEtcd s (interrupted s done n)).manifest = addLabel s (cutManifest s done n) := by
  obtain ⟨k, rfl⟩ := Nat.exists_eq_succ_of_ne_zero hdone
  have hnode : interrupted s (k + 1) n = ⟨true, applyAll
      ((addLabel s :: gatedEdits s n.deployed).take k) n.manifest⟩ := by
    rw [← steps_manifest s n.deployed k n, ← interrupted_deployed s (k + 1) n (.inr hdone)]
    rfl
  rw [hnode, rerun_marked, cutManifest]
  cases k with
  | zero => exact (addLabel_idem s n.manifest).symm
  | succ k => rfl

theorem straight_manifest (done : Nat) (n : Node) : (updateEtcd s n).manifest =
    applyAll ((gatedEdits s n.deployed).drop (done - 2)) (cutManifest s done n) := by
  rw [updateEtcd_manifest, cutManifest, ← applyAll_append, List.take_append_drop]

section Recovery

theorem metricsUrl_ne_nil : pattern metricsUrl ≠ [] := by decide

theorem length_metricsUrl (ip : String) : (pattern metricsUrl).length <
    ("--listen-metrics-urls=http://127.0.0.1:2381,http://" ++ ip ++ ":2381").length := by
  have hpattern : (pattern metricsUrl).length = 43 := by decide
  have hurl : "--listen-metrics-urls=http://127.0.0.1:2381,http://".length = 51 := by decide
  rw [hpattern, String.length_append, String.length_append, hurl]
  omega

theorem onlyWhen_enlarges {size : List String → Nat} {e : Edit} (h : Enlarges size e) (c : Bool) :
    Enlarges size (onlyWhen c e) := by
  cases c with
  | false => exact fun m => .inl rfl
  | true => exact h

theorem eq_insertAfter_of_mem {e : Edit} (he : e ∈ addTimezoneMountPath s ++ addTimezoneHostPath s) :
    ∃ after line, e = insertAfter after line := by
  rw [List.mem_append, addTimezoneMountPath, addTimezoneHostPath, List.mem_map, List.mem_map] at he
  cases he with
  | inl hmount =>
    obtain ⟨line, -, rfl⟩ := hmount
    exact ⟨_, line, rfl⟩
  | inr hhost =>
    obtain ⟨line, -, rfl⟩ := hhost
    exact ⟨_, line, rfl⟩

theorem timezone_enlarges {size : List String → Nat}
    (h : ∀ after line, Enlarges size (insertAfter after line)) (c : Bool) :
    ∀ e ∈ (addTimezoneMountPath s ++ addTimezoneHostPath s).map (onlyWhen c), Enlarges size e := by
  intro e he
  obtain ⟨f, hf, rfl⟩ := List.mem_map.mp he
  obtain ⟨after, line, rfl⟩ := eq_insertAfter_of_mem s hf
  exact onlyWhen_enlarges (h after line) c

theorem gatedEdits_enlarge (deployed : Bool) : ∀ e ∈ gatedEdits s deployed, Enlarges textSize e := by
  intro e he
  rw [gatedEdits, List.mem_append] at he
  cases he with
  | inl hzone => exact timezone_enlarges s insertAfter_enlarges _ e hzone
  | inr hmetrics =>
    obtain rfl := List.mem_singleton.mp hmetrics
    exact onlyWhen_enlarges (replace_enlarges metricsUrl_ne_nil (length_metricsUrl _)) _

theorem not_matches_labelLine : matchesLine (pattern metricsUrl) labelLine = false := by decide

/-- The label line outlives the edits after it. -/
theorem gatedEdits_keep_label (deployed : Bool) : ∀ e ∈ gatedEdits s deployed, ∀ m,
    labelLine ∈ m → labelLine ∈ e m := by
  have hwhen : ∀ (c : Bool) (e : Edit), (∀ m, labelLine ∈ m → labelLine ∈ e m) →
      ∀ m, labelLine ∈ m → labelLine ∈ onlyWhen c e m := by
    intro c e he
    cases c with
    | false => exact fun m hm => hm
    | true => exact he
  intro e he
  rw [gatedEdits, List.mem_append, List.mem_map, List.mem_singleton] at he
  cases he with
  | inl hzone =>
    obtain ⟨f, hf, rfl⟩ := hzone
    obtain ⟨after, line, rfl⟩ := eq_insertAfter_of_mem s hf
    exact hwhen _ _ fun m hm => mem_insertAfter hm
  | inr hmetrics =>
    subst hmetrics
    refine hwhen _ _ fun m hm => List.mem_map.mpr ⟨labelLine, hm, ?_⟩
    exact replaceLine_of_not not_matches_labelLine

theorem addLabel_mem (hl : s.prometheusK8sAppLabel = true) (m : List String) :
    labelLine ∈ addLabel s m := by
  rw [addLabel, hl]
  exact mem_lineinfile _ _ _ m

/-- Where the label line is there, the task replaces a line, if it changes anything. -/
theorem addLabel_cases (m : List String) (hm : s.prometheusK8sAppLabel = true → labelLine ∈ m) :
    addLabel s m = m ∨ ∃ u l v, m = u ++ l :: v ∧ l ≠ labelLine ∧
      addLabel s m = u ++ labelLine :: v := by
  cases hl : s.prometheusK8sAppLabel with
  | false =>
    refine .inl ?_
    rw [addLabel, hl]
    rfl
  | true =>
    have hany : m.any (matchesLine (pattern "k8s-app: etcd")) = true :=
      List.any_eq_true.mpr ⟨labelLine, hm hl, by decide⟩
    obtain ⟨u, l, v, hm', -, -, hrep⟩ := exists_replaceFirst labelLine hany
    have hnew : addLabel s m = u ++ labelLine :: v := by
      rw [addLabel, hl, onlyWhen, if_pos rfl, lineinfile, if_pos hany, hrep]
    by_cases hne : l = labelLine
    · rw [hne] at hm'
      exact .inl (hnew.trans hm'.symm)
    · exact .inr ⟨u, l, v, hm', hne, hnew⟩

/-- The metrics edit does not turn another line into the label line: what it changes gets longer. -/
theorem addMetricsUrl_ne_addLabel {c : Bool} {u v : List String} {l : String}
    (hl : l ≠ labelLine) : onlyWhen c (addMetricsUrl s) (u ++ l :: v) ≠ u ++ labelLine :: v := by
  intro h
  cases c with
  | false =>
    simp only [onlyWhen, id, Bool.false_eq_true, if_false, List.append_cancel_left_eq,
      List.cons.injEq] at h
    exact hl h.1
  | true =>
    rw [onlyWhen, if_pos rfl, addMetricsUrl, replace, List.map_append, List.map_cons] at h
    have hline := (List.cons.inj (List.append_inj h (by simp)).2).1
    cases hmatch : matchesLine (pattern metricsUrl) l with
    | false =>
      rw [replaceLine_of_not hmatch] at hline
      exact hl hline
    | true =>
      have hlong := (length_replaceLine_of_matches metricsUrl_ne_nil
        (length_metricsUrl (s.ip.getD s.fallbackIp)) hmatch).2
      have hshort := length_metricsUrl (s.ip.getD s.fallbackIp)
      have hpattern : (pattern metricsUrl).length = 43 := by decide
      have hlabel : labelLine.length = 17 := by decide
      rw [hline] at hlong
      omega

/-- The edits that are left come to what the label task makes of the manifest only where neither
they nor that task would change it. -/
theorem applyAll_drop_eq_iff (deployed : Bool) (j : Nat) (m : List String)
    (hm : s.prometheusK8sAppLabel = true → labelLine ∈ m) :
    addLabel s m = applyAll ((gatedEdits s deployed).drop j) m ↔
      addLabel s m = m ∧ ∀ e ∈ (gatedEdits s deployed).drop j, e m = m := by
  constructor
  · intro heq
    have hsame : addLabel s m = m := by
      refine (addLabel_cases s m hm).resolve_right fun hex => ?_
      obtain ⟨u, l, v, hml, hne, hnew⟩ := hex
      rw [gatedEdits, List.drop_append, applyAll_append] at heq
      set zone := (addTimezoneMountPath s ++ addTimezoneHostPath s).map
        (onlyWhen (s.etcdTimezone && !deployed)) with hzone
      set metrics := [onlyWhen (s.masterIpInListenMetricsUrls && !deployed) (addMetricsUrl s)]
        with hmetrics
      -- Neither side has more lines than there were: no line has been inserted.
      have hlength : ∀ k x, (applyAll (metrics.drop k) x).length = x.length := by
        intro k x
        cases k with
        | zero =>
          cases hc : (s.masterIpInListenMetricsUrls && !deployed) <;>
            simp [hmetrics, applyAll, hc, onlyWhen, addMetricsUrl, replace]
        | succ k => simp [hmetrics, applyAll]
      have hcount := congrArg List.length heq
      have hlen : (addLabel s m).length = m.length := by rw [hnew, hml]; simp
      rw [hlength, hlen] at hcount
      have hleave := forall_eq_of_size_le (fun e he => timezone_enlarges s
        insertAfter_enlarges_length _ e (List.mem_of_mem_drop he)) (Nat.le_of_eq hcount.symm)
      rw [applyAll_of_forall_eq hleave, hnew] at heq
      cases hk : j - zone.length with
      | zero =>
        rw [hk, List.drop_zero, hmetrics, hml] at heq
        exact addMetricsUrl_ne_addLabel s hne heq.symm
      | succ k =>
        rw [hk, hmetrics, List.drop_succ_cons, List.drop_nil, hml] at heq
        exact hne (List.cons.inj (List.append_inj heq rfl).2).1.symm
    refine ⟨hsame, forall_eq_of_size_le (fun e he => gatedEdits_enlarge s deployed e
      (List.mem_of_mem_drop he)) (Nat.le_of_eq ?_)⟩
    rw [← heq, hsame]
  · intro hfacts
    rw [hfacts.1, applyAll_of_forall_eq hfacts.2]

/-- After an attempt that was cut short a second one comes to the manifest of a straight run
exactly when the marker had been there or had not been made yet, or none of the edits that were
left, nor the label task once more, would have changed the manifest. -/
theorem interrupted_recovers_iff (done : Nat) (n : Node) :
    (updateEtcd s (interrupted s done n)).manifest = (updateEtcd s n).manifest ↔
      n.deployed = true ∨ done = 0 ∨
        (addLabel s (cutManifest s done n) = cutManifest s done n ∧
          ∀ e ∈ (gatedEdits s n.deployed).drop (done - 2),
            e (cutManifest s done n) = cutManifest s done n) := by
  by_cases hdone : done = 0
  · rw [hdone]
    simp [interrupted, applyAll]
  have hlabel : s.prometheusK8sAppLabel = true → labelLine ∈ cutManifest s done n := fun hl =>
    applyAll_keeps (fun e he => gatedEdits_keep_label s n.deployed e (List.mem_of_mem_take he))
      (addLabel_mem s hl n.manifest)
  rw [rerun_manifest s done n hdone, straight_manifest s done n, applyAll_drop_eq_iff s _ _ _ hlabel]
  refine ⟨fun h => .inr (.inr h), fun h => ?_⟩
  cases h with
  | inl hdeployed =>
    -- With the marker there, only the label task does anything, and that once.
    have hcut : cutManifest s done n = addLabel s n.manifest := by
      rw [cutManifest, hdeployed]
      exact applyAll_of_forall_eq fun e he =>
        gatedEdits_deployed s _ e (List.mem_of_mem_take he)
    rw [hcut, hdeployed]
    exact ⟨addLabel_idem s n.manifest, fun e he =>
      gatedEdits_deployed s _ e (List.mem_of_mem_drop he)⟩
  | inr h => exact h.resolve_left hdone

end Recovery

end Edits

def seoulSettings : EtcdSettings where
  timezoneName := "timezone-seoul"
  timezoneMountPath := "/etc/localtime"
  timezoneHostPath := "/usr/share/zoneinfo/Asia/Seoul"
  ip := some "10.0.0.1"
  fallbackIp := "10.0.0.1"

def freshNode : Node where
  deployed := false
  manifest := ["  labels:", "    component: etcd",
    "    - --listen-metrics-urls=http://127.0.0.1:2381", "    volumeMounts:", "  volumes:"]

/-- Cut short behind the label task, the manifest never gets the other edits. -/
theorem freshNode_misses_edits : ¬ ∀ (s : EtcdSettings) (done : Nat) (n : Node),
    (updateEtcd s (interrupted s done n)).manifest = (updateEtcd s n).manifest := by
  intro h
  have hlines : (updateEtcd seoulSettings (interrupted seoulSettings 2 freshNode)).manifest.length ≠
      (updateEtcd seoulSettings freshNode).manifest.length := by decide +kernel
  exact hlines (congrArg List.length (h seoulSettings 2 freshNode))

end Kubespray.Postinstall

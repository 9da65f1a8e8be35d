import Kubespray.Download.FileCache

/-! The files of all downloads of a run: when the hosts have what was checked, and that a second run
has nothing left to do. -/
namespace Kubespray.Download
open Playbook

section Loop
variable {Host Content : Type} [DecidableEq Host] {sha : Content → String} {p : DownloadPlay Host}
  {d : FileDownload} {s s' t : Disks Host Content}

/-- The files that are handed out were checked in the same run: each host fetches its own, or the
delegate that does is the Ansible host, or takes part and so refreshes the cache there. -/
def DownloadPlay.Trusts (p : DownloadPlay Host) (d : FileDownload) : Prop :=
  p.forceCache = false ∨ p.delegate = p.localhost ∨ p.delegate ∈ p.included d

theorem Settled.verified (h : Settled sha p d s) (htrust : p.Trusts d) :
    ∀ m ∈ p.included d, ∃ c, s.dest m d.dest = some c ∧ Passes sha d.checksum c = true := by
  intro m hm
  cases hforce : p.forceCache with
  | false => exact h.fetched hforce m hm
  | true =>
    obtain ⟨c, hc, hdest⟩ := h.pushed hforce m hm
    obtain ⟨x, hx, hpass⟩ := h.cached hforce
    have hsame : s.cache p.localhost d.cachedName = s.cache p.delegate d.cachedName := by
      obtain hfalse | hlocal | hin := htrust
      · cases hforce.symm.trans hfalse
      · rw [hlocal]
      · exact h.copied hforce hin
    obtain rfl : c = x := Option.some.inj (hc.symm.trans (hsame.trans hx))
    exact ⟨c, hdest, hpass⟩

theorem downloadFiles_cons_completed {i : FileDownload × Answers Host Content}
    {items : List (FileDownload × Answers Host Content)}
    (h : downloadFiles sha p (i :: items) s = .completed s') :
    ∃ u, downloadFile sha p i.1 i.2 s = .completed u ∧ downloadFiles sha p items u = .completed s' := by
  obtain ⟨u, hu, -, hrest⟩ := completed_of_cons h
  exact ⟨u, hu, hrest⟩

theorem downloadFiles_rel {R : Disks Host Content → Disks Host Content → Prop} (hrefl : ∀ s, R s s)
    (htrans : ∀ s t u, R s t → R t u → R s u) {items : List (FileDownload × Answers Host Content)}
    (hstep : ∀ i ∈ items, ∀ s, R s (downloadFile sha p i.1 i.2 s).state)
    (h : downloadFiles sha p items s = .completed s') : R s s' := by
  have hrel : R s (downloadFiles sha p items s).state := by
    refine inOrder_rel hrefl htrans (fun t ht s => ?_) s
    obtain ⟨i, hi, rfl⟩ := List.mem_map.mp ht
    exact hstep i hi s
  rwa [h] at hrel

/-- Whatever lay in the caches, whatever the URLs gave and however often: after a run that completes
each host has at every destination a file with the checksum of its download. -/
theorem downloadFiles_verified {items : List (FileDownload × Answers Host Content)}
    (hdest : (items.map (·.1.dest)).Nodup) (h : downloadFiles sha p items s = .completed s') :
    ∀ i ∈ items, p.Trusts i.1 → ∀ m ∈ p.included i.1,
      ∃ c, s'.dest m i.1.dest = some c ∧ Passes sha i.1.checksum c = true := by
  induction items generalizing s with
  | nil => simp
  | cons e items ih =>
    obtain ⟨u, hu, hrest⟩ := downloadFiles_cons_completed h
    obtain ⟨hnew, htail⟩ := List.nodup_cons.mp hdest
    intro i hi htrust m hm
    cases List.mem_cons.mp hi with
    | inr hlater => exact ih htail hrest i hlater htrust m hm
    | inl hfirst =>
      subst hfirst
      obtain ⟨c, hc, hpass⟩ := (downloadFile_settles hu (List.ne_nil_of_mem hm)).verified htrust m hm
      -- the downloads that follow have other destinations
      have hkept : s'.dest m i.1.dest = u.dest m i.1.dest := by
        refine downloadFiles_rel (R := fun s t => t.dest m i.1.dest = s.dest m i.1.dest)
          (fun _ => rfl) (fun _ _ _ hst htu => htu.trans hst) (fun j hj s => ?_) hrest
        exact downloadFile_dest (fun he => hnew (List.mem_map.mpr ⟨j, hj, he.symm⟩)) s m
      exact ⟨c, hkept.trans hc, hpass⟩

end Loop

section Again
variable {Host Content : Type} [DecidableEq Host] {sha : Content → String} {p : DownloadPlay Host}
  {d : FileDownload} {a : Answers Host Content} {s s' : Disks Host Content}

/-- The transfers between the hosts go well; nothing is said of what the URL gives. -/
structure Answers.Copies (a : Answers Host Content) : Prop where
  served : ∀ h, a.served h ≠ []
  copyBack : a.copyBack = .ok
  push : ∀ h, ∃ os, a.push h = .ok :: os

theorem downloadItem_of_settled (h : Settled sha p d s) (ha : a.Copies) :
    downloadItem sha p d a s = .completed s := by
  rw [downloadItem]
  split
  · rename_i hforce
    obtain ⟨c, hc, hpass⟩ := h.cached hforce
    have hkept : onHosts [p.delegate] (fun h => getUrlRetried sha d (a.served h))
        (s.cache · d.cachedName) = .completed (s.cache · d.cachedName) := by
      refine onHosts_of_unchanged fun m hm => ?_
      rw [List.mem_singleton.mp hm, hc]
      exact getUrlRetried_of_passes hpass (ha.served _)
    rw [focus, hkept, Ended.map, setCache_self]
  · rename_i hforce
    have hkept : onHosts (p.included d) (fun h => getUrlRetried sha d (a.served h))
        (s.dest · d.dest) = .completed (s.dest · d.dest) := by
      refine onHosts_of_unchanged fun m hm => ?_
      obtain ⟨c, hc, hpass⟩ := h.fetched (by simpa using hforce) m hm
      rw [hc]
      exact getUrlRetried_of_passes hpass (ha.served m)
    rw [focus, hkept, Ended.map, setDest_self]

theorem copyBack_of_settled (h : Settled sha p d s) (ha : a.Copies) :
    copyBack p d a s = .completed s := by
  rw [copyBack, only]
  split
  · rename_i hcopy
    simp only [Bool.and_eq_true, decide_eq_true_eq] at hcopy
    obtain ⟨c, hc, -⟩ := h.cached hcopy.1.1
    have hsame : Function.update (s.cache · d.cachedName) p.localhost (some c) =
        (s.cache · d.cachedName) := by
      rw [Function.update_eq_self_iff, h.copied hcopy.1.1 hcopy.2, hc]
    rw [ha.copyBack, perform, hc, Option.map_some, hsame, setCache_self]
    rfl
  · rfl

theorem copyToNodes_eq (ha : a.Copies) (hforce : p.forceCache = true) {c : Content}
    (hc : s.cache p.localhost d.cachedName = some c) : copyToNodes p d a s =
      .completed (s.setDest d.dest fun m => if m ∈ p.included d then some c else s.dest m d.dest) := by
  have hpush : ∀ m ∈ p.included d, retry (((a.push m).take tries).map fun o =>
      perform o fun _ => (s.cache p.localhost d.cachedName).map some) (s.dest m d.dest) =
        .completed (some c) := by
    intro m _
    obtain ⟨os, hos⟩ := ha.push m
    rw [hos, tries, List.take_succ_cons, List.map_cons, retry, hc]
    rfl
  rw [copyToNodes, hforce, only, if_pos rfl, focus, onHosts_of_completed hpush]
  rfl

theorem copyToNodes_of_settled (h : Settled sha p d s) (ha : a.Copies) (hne : p.included d ≠ []) :
    copyToNodes p d a s = .completed s := by
  cases hforce : p.forceCache with
  | false => rw [copyToNodes, hforce]; rfl
  | true =>
    obtain ⟨m, hm⟩ := List.exists_mem_of_ne_nil _ hne
    obtain ⟨c, hc, -⟩ := h.pushed hforce m hm
    have hsame : (fun m => if m ∈ p.included d then some c else s.dest m d.dest) =
        (s.dest · d.dest) := by
      funext m
      split
      · rename_i hm
        obtain ⟨x, hx, hdest⟩ := h.pushed hforce m hm
        rw [hdest, ← hc, hx]
      · rfl
    rw [copyToNodes_eq ha hforce hc, hsame, setDest_self]

theorem downloadFile_of_settled (h : p.included d ≠ [] → Settled sha p d s) (ha : a.Copies) :
    downloadFile sha p d a s = .completed s := by
  rw [downloadFile, only]
  split
  · rename_i hne
    have hs := h (by simpa using hne)
    rw [inOrder, downloadItem_of_settled hs ha, Ended.andThen, inOrder, copyBack_of_settled hs ha,
      Ended.andThen, inOrder, copyToNodes_of_settled hs ha (by simpa using hne)]
    rfl
  · rfl

theorem downloadFiles_settles {items : List (FileDownload × Answers Host Content)}
    (hdest : (items.map (·.1.dest)).Nodup) (hname : (items.map (·.1.cachedName)).Nodup)
    (h : downloadFiles sha p items s = .completed s') :
    ∀ i ∈ items, p.included i.1 ≠ [] → Settled sha p i.1 s' := by
  induction items generalizing s with
  | nil => simp
  | cons e items ih =>
    obtain ⟨u, hu, hrest⟩ := downloadFiles_cons_completed h
    obtain ⟨hnewDest, hdest⟩ := List.nodup_cons.mp hdest
    obtain ⟨hnewName, hname⟩ := List.nodup_cons.mp hname
    intro i hi hne
    cases List.mem_cons.mp hi with
    | inr hlater => exact ih hdest hname hrest i hlater hne
    | inl hfirst =>
      subst hfirst
      refine (downloadFile_settles hu hne).congr ?_
      refine downloadFiles_rel (SameFiles.refl i.1) (fun _ _ _ => SameFiles.trans) (fun j hj s => ?_) hrest
      exact downloadFile_sameFiles (fun he => hnewDest (List.mem_map.mpr ⟨j, hj, he.symm⟩))
        (fun he => hnewName (List.mem_map.mpr ⟨j, hj, he.symm⟩)) s

/-- Caches in which the Ansible host has one content and every other host another. -/
def twoContents (localhost : Host) (here there : Content) : Disks Host Content where
  cache := fun h _ => if h = localhost then some here else some there
  dest := fun _ _ => none

def quietAnswers : Answers Host Content := ⟨fun _ => [none], .ok, fun _ => [.ok]⟩

omit [DecidableEq Host] in
theorem quietAnswers_copies : (quietAnswers : Answers Host Content).Copies :=
  ⟨fun _ => by simp [quietAnswers], rfl, fun _ => ⟨[], rfl⟩⟩

/-- Without a delegate that refreshes it, the cache of the Ansible host is handed out as it is. -/
theorem downloadFile_twoContents (hforce : p.forceCache = true) (hlocal : p.delegate ≠ p.localhost)
    (hout : p.delegate ∉ p.included d) (hne : p.included d ≠ []) (here : Content) {there : Content}
    (hthere : Passes sha d.checksum there = true) :
    ∃ s', downloadFile sha p d quietAnswers (twoContents p.localhost here there) = .completed s' ∧
      ∀ m ∈ p.included d, s'.dest m d.dest = some here := by
  have hhere : (twoContents p.localhost here there).cache p.localhost d.cachedName = some here :=
    if_pos rfl
  have hdelegate : (twoContents p.localhost here there).cache p.delegate d.cachedName = some there :=
    if_neg hlocal
  have hkept : onHosts [p.delegate] (fun h => getUrlRetried sha d (quietAnswers.served h))
      ((twoContents p.localhost here there).cache · d.cachedName) =
        .completed ((twoContents p.localhost here there).cache · d.cachedName) := by
    refine onHosts_of_unchanged fun m hm => ?_
    rw [List.mem_singleton.mp hm, hdelegate]
    exact getUrlRetried_of_passes hthere (quietAnswers_copies.served _)
  refine ⟨(twoContents p.localhost here there).setDest d.dest
    fun m => if m ∈ p.included d then some here else none, ?_,
    fun m hm => (if_pos rfl).trans (if_pos hm)⟩
  rw [downloadFile, only, if_pos (by simpa using hne), inOrder, downloadItem, if_pos hforce, focus,
    hkept, Ended.map, setCache_self, Ended.andThen, inOrder, copyBack, only, if_neg (by simp [hout]),
    Ended.andThen, inOrder, copyToNodes_eq quietAnswers_copies hforce hhere]
  rfl

/-- Every completed download leaves checked files exactly where the cache is refreshed from the
delegate, or not used, or is the delegate's own. -/
theorem downloadFile_verified_iff (hne : p.included d ≠ [])
    (hgood : ∃ c, Passes sha d.checksum c = true) (hbad : ∃ c, Passes sha d.checksum c = false) :
    (∀ (a : Answers Host Content) (s s' : Disks Host Content),
      downloadFile sha p d a s = .completed s' → ∀ m ∈ p.included d,
        ∃ c, s'.dest m d.dest = some c ∧ Passes sha d.checksum c = true) ↔ p.Trusts d := by
  constructor
  · intro hall
    by_contra hnot
    simp only [DownloadPlay.Trusts, not_or] at hnot
    obtain ⟨hforce, hlocal, hout⟩ := hnot
    obtain ⟨good, hgood⟩ := hgood
    obtain ⟨bad, hbad⟩ := hbad
    obtain ⟨s', hs', hdest⟩ := downloadFile_twoContents (by simpa using hforce) hlocal hout hne bad
      hgood
    obtain ⟨m, hm⟩ := List.exists_mem_of_ne_nil _ hne
    obtain ⟨c, hc, hpass⟩ := hall _ _ s' hs' m hm
    rw [hdest m hm, Option.some.injEq] at hc
    rw [← hc, hbad] at hpass
    cases hpass
  · exact fun htrust a s s' h => (downloadFile_settles h hne).verified htrust

/-- The first control plane host takes part in each download of a play with download_run_once. -/
def oncePlay : DownloadPlay String where
  localhost := "localhost"
  firstControlPlane := "node1"
  downloadRunOnce := true
  downloadForceCache := false
  downloadLocalhost := false
  hosts := ["node1", "node2"]
  inGroups := fun _ h => h = "node2"

def onceItems : List (FileDownload × Answers String String) :=
  [⟨⟨"/tmp/releases/etcd", "e"⟩, ⟨fun _ => [none, some "x", some "e"], .ok, fun _ => [.failed false, .ok]⟩⟩,
   ⟨⟨"/tmp/releases/kubelet", "k"⟩, ⟨fun _ => [some "k"], .ok, fun _ => [.ok]⟩⟩]

/-- A cache that is left from another version. -/
def staleDisks : Disks String String := ⟨fun _ _ => some "old", fun _ _ => none⟩

theorem onceItems_completed : downloadFiles id oncePlay onceItems staleDisks =
    .completed (downloadFiles id oncePlay onceItems staleDisks).state :=
  (Ended.isCompleted_iff _).mp (by decide)

theorem downloadFiles_verified_once : ∃ c,
    (downloadFiles id oncePlay onceItems staleDisks).state.dest "node2" "/tmp/releases/etcd" = some c ∧
      Passes id (some "e") c = true :=
  downloadFiles_verified (by decide) onceItems_completed (onceItems.get ⟨0, by decide⟩) (by simp)
    (.inr (.inr (by decide))) "node2" (by decide)

/-- With download_force_cache alone the first control plane host need not take part. -/
theorem downloadFile_verified_forced :
    ¬ ∀ (a : Answers String String) (s s' : Disks String String),
      downloadFile id { oncePlay with downloadRunOnce := false, downloadForceCache := true }
        ⟨"/tmp/releases/etcd", "e"⟩ a s = .completed s' → ∀ m ∈ ["node2"],
          ∃ c, s'.dest m "/tmp/releases/etcd" = some c ∧ Passes id (some "e") c = true := by
  intro h
  have htrusts := (downloadFile_verified_iff
    (p := { oncePlay with downloadRunOnce := false, downloadForceCache := true })
    (d := ⟨"/tmp/releases/etcd", "e"⟩) (by decide) ⟨"e", by decide⟩ ⟨"x", by decide⟩).mp h
  revert htrusts
  simp only [DownloadPlay.Trusts]
  decide

end Again

end Kubespray.Download

import Kubespray.Lib.Hosts
import Kubespray.Lib.Text

/-! roles/download/tasks/download_file.yml, with the settings that prep_download.yml and main.yml
decide on: the file is fetched by every host, or once into a cache and handed out from there. -/
namespace Kubespray.Download
open Playbook

structure FileDownload where
  dest : String
  sha256 : String
  deriving DecidableEq

/-- `download.dest | basename`, the name of the cached file -/
def FileDownload.cachedName (d : FileDownload) : String :=
  String.ofList (((splitChar '/' d.dest.toList).getLast?).getD [])

/-- `'sha256:' + download.sha256 if download.sha256 else omit` -/
def FileDownload.checksum (d : FileDownload) : Option String :=
  if d.sha256 = "" then none else some d.sha256

structure DownloadPlay (Host : Type) where
  localhost : Host
  /-- `groups['kube_control_plane'][0]` -/
  firstControlPlane : Host
  downloadRunOnce : Bool
  downloadForceCache : Bool
  downloadLocalhost : Bool
  hosts : List Host
  /-- `group_names | intersect(download.groups)` is not empty. -/
  inGroups : FileDownload → Host → Bool

section Settings
variable {Host : Type} [DecidableEq Host] (p : DownloadPlay Host)

/-- `true if download_run_once else download_force_cache` -/
def DownloadPlay.forceCache : Bool := if p.downloadRunOnce then true else p.downloadForceCache

def DownloadPlay.delegate : Host := if p.downloadLocalhost then p.localhost else p.firstControlPlane

/-- The hosts for which main.yml includes the download. -/
def DownloadPlay.included (d : FileDownload) : List Host :=
  p.hosts.filter fun h => (p.downloadRunOnce && h = p.delegate) || p.inGroups d h

end Settings

/-- The files in download_cache_dir and those that were downloaded for good, on every host. -/
structure Disks (Host Content : Type) where
  cache : Host → String → Option Content
  dest : Host → String → Option Content

/-- What the tasks of one download meet. -/
structure Answers (Host Content : Type) where
  /-- What the URL gives a host, attempt by attempt. -/
  served : Host → List (Option Content)
  copyBack : Outcome
  push : Host → List Outcome

section Tasks
variable {Host Content : Type} [DecidableEq Host] (sha : Content → String)

/-- The content passes the check of get_url, if there is one. -/
def Passes (checksum : Option String) (c : Content) : Bool := checksum.all fun x => sha c = x

/-- The module get_url on its destination: a file that passes stays, and one that was fetched and
does not pass is removed. -/
def getUrl (checksum : Option String) (served : Option Content) : Action (Option Content) :=
  fun dest =>
    if dest.any (Passes sha checksum) then .completed dest
    else match served with
      | none => .failed dest
      | some c => if Passes sha checksum c then .completed (some c) else .failed none

/-- `retries: 4` -/
def tries : Nat := 5

def getUrlRetried (d : FileDownload) (served : List (Option Content)) : Action (Option Content) :=
  retry ((served.take tries).map (getUrl sha d.checksum))

/-- The files of that name in the caches, or at that path, of all hosts. -/
def Disks.setCache (name : String) (f : Host → Option Content) (s : Disks Host Content) :
    Disks Host Content :=
  { s with cache := fun h n => if n = name then f h else s.cache h n }

def Disks.setDest (path : String) (f : Host → Option Content) (s : Disks Host Content) :
    Disks Host Content :=
  { s with dest := fun h q => if q = path then f h else s.dest h q }

variable (p : DownloadPlay Host) (d : FileDownload) (a : Answers Host Content)

/-- "Download item" -/
def downloadItem : Action (Disks Host Content) :=
  if p.forceCache then
    focus (fun s h => s.cache h d.cachedName) (Disks.setCache d.cachedName)
      (onHosts [p.delegate] fun h => getUrlRetried sha d (a.served h))
  else
    focus (fun s h => s.dest h d.dest) (Disks.setDest d.dest)
      (onHosts (p.included d) fun h => getUrlRetried sha d (a.served h))

/-- "Copy file back to ansible host file cache" -/
def copyBack : Action (Disks Host Content) :=
  only (p.forceCache && !p.downloadLocalhost && p.delegate ∈ p.included d)
    (perform a.copyBack fun s => (s.cache p.delegate d.cachedName).map fun c =>
      s.setCache d.cachedName (Function.update (s.cache · d.cachedName) p.localhost (some c)))

/-- "Copy file from cache to nodes, if it is available" -/
def copyToNodes : Action (Disks Host Content) :=
  only p.forceCache fun s => focus (fun s h => s.dest h d.dest) (Disks.setDest d.dest)
    (onHosts (p.included d) fun h => retry (((a.push h).take tries).map fun o =>
      perform o fun _ => (s.cache p.localhost d.cachedName).map some)) s

def downloadFile : Action (Disks Host Content) :=
  only (!(p.included d).isEmpty)
    (inOrder [downloadItem sha p d a, copyBack p d a, copyToNodes p d a])

/-- The loop of main.yml over the downloads. -/
def downloadFiles (items : List (FileDownload × Answers Host Content)) : Action (Disks Host Content) :=
  inOrder (items.map fun i => downloadFile sha p i.1 i.2)

end Tasks

section GetUrl
variable {Content : Type} {sha : Content → String} {checksum : Option String}

theorem getUrl_completed {served x y : Option Content} (h : getUrl sha checksum served x = .completed y) :
    ∃ c, y = some c ∧ Passes sha checksum c = true := by
  unfold getUrl at h
  split at h
  · rename_i hany
    obtain rfl := Ended.completed.inj h
    cases x with
    | none => cases hany
    | some c => exact ⟨c, rfl, hany⟩
  · cases served with
    | none => cases h
    | some c =>
      simp only at h
      split at h
      · rename_i hc
        exact ⟨c, (Ended.completed.inj h).symm, hc⟩
      · cases h

theorem getUrl_of_passes {c : Content} (hc : Passes sha checksum c = true) (served : Option Content) :
    getUrl sha checksum served (some c) = .completed (some c) := by
  simp [getUrl, hc]

variable {d : FileDownload}

theorem getUrlRetried_completed {served : List (Option Content)} {x y : Option Content}
    (h : getUrlRetried sha d served x = .completed y) :
    ∃ c, y = some c ∧ Passes sha d.checksum c = true := by
  obtain ⟨t, ht, u, hu⟩ := retry_completed h
  obtain ⟨o, -, rfl⟩ := List.mem_map.mp ht
  exact getUrl_completed hu

/-- A file that passes is not fetched again. -/
theorem getUrlRetried_of_passes {c : Content} (hc : Passes sha d.checksum c = true)
    {served : List (Option Content)} (hne : served ≠ []) :
    getUrlRetried sha d served (some c) = .completed (some c) := by
  obtain ⟨o, os, rfl⟩ := List.exists_cons_of_ne_nil hne
  rw [getUrlRetried, tries, List.take_succ_cons, List.map_cons, retry, getUrl_of_passes hc]
  rfl

end GetUrl

section Frame
variable {Host Content : Type} {d e : FileDownload} {s s' t : Disks Host Content}

/-- Nothing at the destination of `d` is different, nor in the caches under its name. -/
structure SameFiles (d : FileDownload) (s s' : Disks Host Content) : Prop where
  dest : ∀ h, s'.dest h d.dest = s.dest h d.dest
  cache : ∀ h, s'.cache h d.cachedName = s.cache h d.cachedName

theorem SameFiles.refl (d : FileDownload) (s : Disks Host Content) : SameFiles d s s :=
  ⟨fun _ => rfl, fun _ => rfl⟩

theorem SameFiles.trans (hst : SameFiles d s t) (hts : SameFiles d t s') : SameFiles d s s' :=
  ⟨fun h => (hts.dest h).trans (hst.dest h), fun h => (hts.cache h).trans (hst.cache h)⟩

theorem dest_setDest_of_ne (f : Host → Option Content) (hne : d.dest ≠ e.dest) (h : Host) :
    (s.setDest e.dest f).dest h d.dest = s.dest h d.dest := if_neg hne

theorem cache_setCache_of_ne (f : Host → Option Content) (hne : d.cachedName ≠ e.cachedName)
    (h : Host) : (s.setCache e.cachedName f).cache h d.cachedName = s.cache h d.cachedName :=
  if_neg hne

theorem setCache_self (name : String) (s : Disks Host Content) :
    s.setCache name (s.cache · name) = s := by
  rw [Disks.setCache]
  congr 1
  funext h n
  by_cases hn : n = name
  · rw [if_pos hn, hn]
  · rw [if_neg hn]

theorem setDest_self (path : String) (s : Disks Host Content) :
    s.setDest path (s.dest · path) = s := by
  rw [Disks.setDest]
  congr 1
  funext h q
  by_cases hq : q = path
  · rw [if_pos hq, hq]
  · rw [if_neg hq]

/-- A step that writes the caches under one name only, or at one destination only. -/
inductive Writes (e : FileDownload) (s : Disks Host Content) : Disks Host Content → Prop
  | none : Writes e s s
  | cache (f : Host → Option Content) : Writes e s (s.setCache e.cachedName f)
  | dest (f : Host → Option Content) : Writes e s (s.setDest e.dest f)

variable [DecidableEq Host] {sha : Content → String} {p : DownloadPlay Host} {a : Answers Host Content}

theorem downloadItem_writes (s : Disks Host Content) :
    Writes e s (downloadItem sha p e a s).state := by
  rw [downloadItem]
  split
  · rw [focus_state]
    exact .cache _
  · rw [focus_state]
    exact .dest _

theorem copyBack_writes (s : Disks Host Content) : Writes e s (copyBack p e a s).state := by
  rw [copyBack, only]
  split
  · rw [state_perform]
    split
    · cases s.cache p.delegate e.cachedName with
      | none => exact .none
      | some c => exact .cache _
    · exact .none
  · exact .none

theorem copyToNodes_writes (s : Disks Host Content) : Writes e s (copyToNodes p e a s).state := by
  rw [copyToNodes, only]
  split
  · rw [focus_state]
    exact .dest _
  · exact .none

/-- Each of the tasks of a download keeps to a preorder that its writes keep to. -/
theorem downloadFile_rel {R : Disks Host Content → Disks Host Content → Prop} (hrefl : ∀ s, R s s)
    (htrans : ∀ s t u, R s t → R t u → R s u) (hwrites : ∀ s t, Writes e s t → R s t)
    (s : Disks Host Content) : R s (downloadFile sha p e a s).state := by
  rw [downloadFile, only]
  split
  · refine inOrder_rel hrefl htrans (fun t ht s => hwrites s _ ?_) s
    simp only [List.mem_cons, List.not_mem_nil, or_false] at ht
    obtain rfl | rfl | rfl := ht
    · exact downloadItem_writes s
    · exact copyBack_writes s
    · exact copyToNodes_writes s
  · exact hrefl s

theorem downloadFile_dest (hne : d.dest ≠ e.dest) (s : Disks Host Content) (h : Host) :
    (downloadFile sha p e a s).state.dest h d.dest = s.dest h d.dest := by
  refine downloadFile_rel (R := fun s t => t.dest h d.dest = s.dest h d.dest) (fun _ => rfl)
    (fun _ _ _ hst htu => htu.trans hst) (fun s t ht => ?_) s
  cases ht with
  | none => rfl
  | cache f => rfl
  | dest f => exact dest_setDest_of_ne f hne h

theorem downloadFile_sameFiles (hdest : d.dest ≠ e.dest) (hcache : d.cachedName ≠ e.cachedName)
    (s : Disks Host Content) : SameFiles d s (downloadFile sha p e a s).state := by
  refine downloadFile_rel (SameFiles.refl d) (fun _ _ _ => SameFiles.trans) (fun s t ht => ?_) s
  cases ht with
  | none => exact SameFiles.refl d s
  | cache f => exact ⟨fun _ => rfl, cache_setCache_of_ne f hcache⟩
  | dest f => exact ⟨dest_setDest_of_ne f hdest, fun _ => rfl⟩

end Frame

section Settled
variable {Host Content : Type} [DecidableEq Host] {sha : Content → String} {p : DownloadPlay Host}
  {d : FileDownload} {a : Answers Host Content} {s s' t : Disks Host Content}

/-- What a completed download leaves on the hosts it was included for. -/
structure Settled (sha : Content → String) (p : DownloadPlay Host) (d : FileDownload)
    (s : Disks Host Content) : Prop where
  fetched : p.forceCache = false → ∀ h ∈ p.included d, ∃ c, s.dest h d.dest = some c ∧
    Passes sha d.checksum c = true
  cached : p.forceCache = true → ∃ c, s.cache p.delegate d.cachedName = some c ∧
    Passes sha d.checksum c = true
  copied : p.forceCache = true → p.delegate ∈ p.included d →
    s.cache p.localhost d.cachedName = s.cache p.delegate d.cachedName
  pushed : p.forceCache = true → ∀ h ∈ p.included d, ∃ c,
    s.cache p.localhost d.cachedName = some c ∧ s.dest h d.dest = some c

theorem Settled.congr (h : Settled sha p d s) (hsame : SameFiles d s t) : Settled sha p d t where
  fetched := by simpa only [hsame.dest] using h.fetched
  cached := by simpa only [hsame.cache] using h.cached
  copied := by simpa only [hsame.cache] using h.copied
  pushed := by simpa only [hsame.cache, hsame.dest] using h.pushed

theorem downloadItem_completed (h : downloadItem sha p d a s = .completed s') :
    (p.forceCache = true → ∃ c, s'.cache p.delegate d.cachedName = some c ∧
      Passes sha d.checksum c = true) ∧
    (p.forceCache = false → ∀ m ∈ p.included d, ∃ c, s'.dest m d.dest = some c ∧
      Passes sha d.checksum c = true) := by
  rw [downloadItem] at h
  split at h
  · rename_i hforce
    obtain ⟨f, hf, rfl⟩ := focus_completed h
    refine ⟨fun _ => ?_, fun hnot => absurd (hforce.symm.trans hnot) (by decide)⟩
    rw [show (s.setCache d.cachedName f).cache p.delegate d.cachedName = f p.delegate from if_pos rfl]
    exact getUrlRetried_completed (onHosts_completed hf (by simp))
  · rename_i hforce
    obtain ⟨f, hf, rfl⟩ := focus_completed h
    refine ⟨fun hyes => absurd hyes hforce, fun _ m hm => ?_⟩
    rw [show (s.setDest d.dest f).dest m d.dest = f m from if_pos rfl]
    exact getUrlRetried_completed (onHosts_completed hf hm)

theorem copyBack_completed (h : copyBack p d a s = .completed s') (hforce : p.forceCache = true) :
    s'.cache p.delegate d.cachedName = s.cache p.delegate d.cachedName ∧
      (p.delegate ∈ p.included d →
        s'.cache p.localhost d.cachedName = s'.cache p.delegate d.cachedName) := by
  by_cases hcopy : (p.forceCache && !p.downloadLocalhost && decide (p.delegate ∈ p.included d)) = true
  · rw [copyBack, hcopy, only, if_pos rfl] at h
    have hset := (perform_completed_iff.mp h).2
    obtain ⟨c, hc, rfl⟩ := Option.map_eq_some_iff.mp hset
    have hnew : ∀ m, (s.setCache d.cachedName (Function.update (s.cache · d.cachedName) p.localhost
        (some c))).cache m d.cachedName =
          Function.update (s.cache · d.cachedName) p.localhost (some c) m := fun m => if_pos rfl
    have hdelegate : Function.update (s.cache · d.cachedName) p.localhost (some c) p.delegate =
        some c := by
      by_cases he : p.delegate = p.localhost
      · rw [he, Function.update_self]
      · rw [Function.update_of_ne he, hc]
    refine ⟨by rw [hnew, hdelegate, hc], fun _ => by rw [hnew, hnew, hdelegate, Function.update_self]⟩
  · rw [copyBack, Bool.eq_false_iff.mpr hcopy, only] at h
    obtain rfl : s = s' := Ended.completed.inj h
    refine ⟨rfl, fun hin => ?_⟩
    have hlocal : p.downloadLocalhost = true := by simpa [hforce, hin] using hcopy
    rw [DownloadPlay.delegate, hlocal, if_pos rfl]

theorem copyToNodes_completed (h : copyToNodes p d a s = .completed s') (hforce : p.forceCache = true) :
    s'.cache = s.cache ∧ ∀ m ∈ p.included d, ∃ c,
      s.cache p.localhost d.cachedName = some c ∧ s'.dest m d.dest = some c := by
  rw [copyToNodes, hforce, only, if_pos rfl] at h
  obtain ⟨f, hf, rfl⟩ := focus_completed h
  refine ⟨rfl, fun m hm => ?_⟩
  rw [show (s.setDest d.dest f).dest m d.dest = f m from if_pos rfl]
  have haccepted := onHosts_completed hf hm
  obtain ⟨x, hx, u, hu⟩ := retry_completed haccepted
  obtain ⟨o, -, rfl⟩ := List.mem_map.mp hx
  have hset := (perform_completed_iff.mp hu).2
  obtain ⟨c, hc, hfm⟩ := Option.map_eq_some_iff.mp hset
  exact ⟨c, hc, hfm.symm⟩

/-- A download that completes has settled its files. -/
theorem downloadFile_settles (h : downloadFile sha p d a s = .completed s')
    (hne : p.included d ≠ []) : Settled sha p d s' := by
  rw [downloadFile, only, if_pos (by simpa using hne)] at h
  obtain ⟨t, ht, -, hrest⟩ := completed_of_cons h
  obtain ⟨u, hu, -, hrest⟩ := completed_of_cons hrest
  obtain ⟨x, hx, -, hend⟩ := completed_of_cons hrest
  obtain rfl : x = s' := Ended.completed.inj hend
  obtain ⟨hitem, hdirect⟩ := downloadItem_completed ht
  cases hforce : p.forceCache with
  | false =>
    have hback : t = u := by
      rw [copyBack, hforce] at hu
      exact Ended.completed.inj hu
    have hnodes : u = x := by
      rw [copyToNodes, hforce] at hx
      exact Ended.completed.inj hx
    rw [← hnodes, ← hback]
    exact ⟨fun _ => hdirect hforce, fun hf => absurd (hforce.symm.trans hf) (by decide),
      fun hf => absurd (hforce.symm.trans hf) (by decide),
      fun hf => absurd (hforce.symm.trans hf) (by decide)⟩
  | true =>
    obtain ⟨hkept, hcopied⟩ := copyBack_completed hu hforce
    obtain ⟨hcache, hpushed⟩ := copyToNodes_completed hx hforce
    refine ⟨fun hf => absurd (hforce.symm.trans hf) (by decide), fun _ => ?_, fun _ => ?_, fun _ => ?_⟩
    · rw [hcache, hkept]
      exact hitem hforce
    · rw [hcache]
      exact hcopied
    · rw [hcache]
      exact hpushed

end Settled

end Kubespray.Download

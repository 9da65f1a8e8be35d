import Kubespray.Lib.OrderedDict
import Kubespray.Lib.Text

/-! roles/download/tasks: set_container_facts.yml and download_container.yml with download_run_once
and download_force_cache on. Images are saved to files, kept in the cache and loaded from there. -/
namespace Kubespray.Download

structure ImageDownload where
  repo : String
  tag : String
  sha256 : Option String := none
  deriving DecidableEq

section Facts

def pullByDigest (d : ImageDownload) : Bool := d.sha256.any (· ≠ "")

def imageReponame (d : ImageDownload) : String :=
  if pullByDigest d then d.repo ++ "@sha256:" ++ d.sha256.getD "" else d.repo ++ ":" ++ d.tag

/-- `{{ image_reponame | regex_replace('/|\0|:', '_') }}.tar` -/
def imageFilename (d : ImageDownload) : String :=
  String.ofList ((imageReponame d).toList.map fun c => if c ∈ ['/', '\x00', ':'] then '_' else c) ++
    ".tar"

/-- Character by character, the names of the images differ in nothing but the characters that
become an underscore, and underscores. -/
def SameButSeparators (d d' : ImageDownload) : Prop :=
  List.Forall₂ (fun c c' => c = c' ∨ (c ∈ ['/', '\x00', ':', '_'] ∧ c' ∈ ['/', '\x00', ':', '_']))
    (imageReponame d).toList (imageReponame d').toList

theorem imageFilename_eq_iff (d d' : ImageDownload) :
    imageFilename d = imageFilename d' ↔ SameButSeparators d d' := by
  rw [← String.toList_inj, imageFilename, imageFilename, String.toList_append, String.toList_append,
    List.append_cancel_right_eq, String.toList_ofList, String.toList_ofList, map_ite_eq_iff,
    SameButSeparators]
  simp only [List.mem_cons, List.not_mem_nil, or_false, or_assoc]

end Facts

section Tasks
variable {Host : Type} [DecidableEq Host]

inductive ContainerManager where
  | docker
  | containerd
  | crio
  deriving DecidableEq

/-- One download: the settings of its run, the hosts that take part in it and those of them that
do not have the image yet. -/
structure Execution (Host : Type) where
  download : ImageDownload
  localhost : Host
  firstControlPlane : Host
  downloadLocalhost : Bool
  managerOnLocalhost : ContainerManager
  keepRemoteCache : Bool
  hosts : List Host
  pullRequired : Host → Bool

def Execution.delegate (e : Execution Host) : Host :=
  if e.downloadLocalhost then e.localhost else e.firstControlPlane

/-- The files of images, each with the name of the image that it was saved from: in
download_cache_dir of the Ansible host, and in local_release_dir of every host. -/
structure Files (Host : Type) where
  cached : OrderedDict String String := ∅
  final : OrderedDict (Host × String) String := ∅

/-- An image is loaded into the registry of a host from a file with the given content. -/
structure Load (Host : Type) where
  host : Host
  reponame : String
  content : String
  deriving DecidableEq

variable (e : Execution Host)

/-- "Save and compress image" on the delegate. -/
def saveImage (s : Files Host) : Files Host :=
  if e.downloadLocalhost ∧ e.managerOnLocalhost ≠ .crio then
    { s with cached := s.cached.setItem (imageFilename e.download) (imageReponame e.download) }
  else
    { s with
      final := s.final.setItem (e.delegate, imageFilename e.download) (imageReponame e.download) }

/-- "Copy image to ansible host cache", on the delegate where it takes part. -/
def copyToCache (s : Files Host) : Files Host :=
  if e.downloadLocalhost ∨ e.delegate ∉ e.hosts then s
  else match s.final.lookup (e.delegate, imageFilename e.download) with
    | some content => { s with cached := s.cached.setItem (imageFilename e.download) content }
    | none => s

/-- "Upload image to node if it is cached"; without the file the host fails. -/
def upload (s : Files Host) (h : Host) : Files Host :=
  match s.cached.lookup (imageFilename e.download) with
  | some content => { s with final := s.final.setItem (h, imageFilename e.download) content }
  | none => s

/-- "Load image into the local container registry", where the upload went well. -/
def load (s : Files Host) (h : Host) : Option (Load Host) :=
  if (s.cached.lookup (imageFilename e.download)).isSome then
    (s.final.lookup (h, imageFilename e.download)).map fun content =>
      ⟨h, imageReponame e.download, content⟩
  else none

/-- "Remove container image from cache" -/
def removeFinal (s : Files Host) : Files Host :=
  if e.keepRemoteCache then s
  else { s with final := s.final.filterKeys fun k =>
    !(k.1 ∈ e.hosts ∧ k.2 = imageFilename e.download) }

/-- The files after the uploads, from which the hosts load. -/
def uploaded (s : Files Host) : Files Host :=
  let cached := (s.cached.lookup (imageFilename e.download)).isSome
  (e.hosts.filter e.pullRequired).foldl (upload e) (if cached then s else copyToCache e (saveImage e s))

def downloadContainer (s : Files Host) : Files Host × List (Load Host) :=
  (removeFinal e (uploaded e s), (e.hosts.filter e.pullRequired).filterMap (load e (uploaded e s)))

/-- What is loaded in a sequence of downloads. -/
def loads : List (Execution Host) → Files Host → List (Load Host)
  | [], _ => []
  | e :: es, s => (downloadContainer e s).2 ++ loads es (downloadContainer e s).1

end Tasks

section Invariant
variable {Host : Type} [DecidableEq Host]

/-- The content was saved under this file name for one of the downloads. -/
def SavedAs (ds : List ImageDownload) (file content : String) : Prop :=
  ∃ d ∈ ds, imageFilename d = file ∧ imageReponame d = content

/-- Every file has the content of a download that has its name. -/
structure FilesSaved (ds : List ImageDownload) (s : Files Host) : Prop where
  cached : ∀ file content, s.cached.lookup file = some content → SavedAs ds file content
  final : ∀ h file content, s.final.lookup (h, file) = some content → SavedAs ds file content

variable {ds : List ImageDownload} {s : Files Host}

theorem FilesSaved.setCached (hs : FilesSaved ds s) {file content : String}
    (hnew : SavedAs ds file content) :
    FilesSaved ds { s with cached := s.cached.setItem file content } := by
  refine ⟨fun f c hc => ?_, hs.final⟩
  rw [OrderedDict.lookup_setItem] at hc
  split at hc
  case isTrue hf => rwa [hf, ← Option.some.inj hc]
  case isFalse => exact hs.cached f c hc

theorem FilesSaved.setFinal (hs : FilesSaved ds s) (h : Host) {file content : String}
    (hnew : SavedAs ds file content) :
    FilesSaved ds { s with final := s.final.setItem (h, file) content } := by
  refine ⟨hs.cached, fun h' f c hc => ?_⟩
  rw [OrderedDict.lookup_setItem] at hc
  split at hc
  case isTrue hf => rwa [(Prod.mk.inj hf).2, ← Option.some.inj hc]
  case isFalse => exact hs.final h' f c hc

variable (e : Execution Host)

theorem FilesSaved.saveImage (hs : FilesSaved ds s) (he : e.download ∈ ds) :
    FilesSaved ds (saveImage e s) := by
  have hnew : SavedAs ds (imageFilename e.download) (imageReponame e.download) :=
    ⟨e.download, he, rfl, rfl⟩
  rw [Download.saveImage]
  split
  · exact hs.setCached hnew
  · exact hs.setFinal e.delegate hnew

theorem FilesSaved.copyToCache (hs : FilesSaved ds s) : FilesSaved ds (copyToCache e s) := by
  rw [Download.copyToCache]
  split
  · exact hs
  · split
    · rename_i content hfinal
      exact hs.setCached (hs.final _ _ content hfinal)
    · exact hs

theorem FilesSaved.upload (hs : FilesSaved ds s) (h : Host) : FilesSaved ds (upload e s h) := by
  rw [Download.upload]
  split
  · rename_i content hcached
    exact hs.setFinal h (hs.cached _ content hcached)
  · exact hs

theorem FilesSaved.uploaded (hs : FilesSaved ds s) (he : e.download ∈ ds) :
    FilesSaved ds (uploaded e s) := by
  have hstart : FilesSaved ds (if (s.cached.lookup (imageFilename e.download)).isSome then s
      else Download.copyToCache e (Download.saveImage e s)) := by
    split
    · exact hs
    · exact (hs.saveImage e he).copyToCache e
  rw [Download.uploaded]
  exact List.foldlRecOn _ _ hstart fun _ h host _ => h.upload e host

theorem FilesSaved.removeFinal (hs : FilesSaved ds s) : FilesSaved ds (removeFinal e s) := by
  rw [Download.removeFinal]
  split
  · exact hs
  · refine ⟨hs.cached, fun h f c hc => ?_⟩
    rw [OrderedDict.lookup_filterKeys] at hc
    split at hc
    · exact hs.final h f c hc
    · cases hc

/-- Every load in a run reads a file that was saved, for some download, under the name of its own. -/
theorem savedAs_of_mem_loads {es : List (Execution Host)} (hes : ∀ e ∈ es, e.download ∈ ds)
    (hs : FilesSaved ds s) {l : Load Host} (hl : l ∈ loads es s) :
    ∃ d ∈ ds, l.reponame = imageReponame d ∧ SavedAs ds (imageFilename d) l.content := by
  induction es generalizing s with
  | nil => cases hl
  | cons e es ih =>
    have he := hes e List.mem_cons_self
    have hfiles := hs.uploaded e he
    rw [loads, List.mem_append] at hl
    cases hl with
    | inl hl =>
      obtain ⟨h, -, hload⟩ := List.mem_filterMap.mp hl
      rw [load] at hload
      split at hload
      · obtain ⟨content, hcontent, rfl⟩ := Option.map_eq_some_iff.mp hload
        exact ⟨e.download, he, rfl, hfiles.final _ _ content hcontent⟩
      · cases hload
    | inr hl => exact ih (fun x hx => hes x (List.mem_cons_of_mem e hx)) (hfiles.removeFinal e) hl

end Invariant

section Served

/-- Images of different names have different files, and in every run of the downloads from an
empty cache each image is loaded from a file that was saved from it. -/
structure ServesOwnImages (ds : List ImageDownload) : Prop where
  files : ∀ d ∈ ds, ∀ d' ∈ ds, imageReponame d ≠ imageReponame d' → imageFilename d ≠ imageFilename d'
  served : ∀ (Host : Type) [DecidableEq Host] (es : List (Execution Host)), es.map (·.download) = ds →
    ∀ l ∈ loads es {}, l.content = l.reponame

/-- Two images of one registry, one with a path and one with an underscore. -/
def underscored : List ImageDownload :=
  [{ repo := "docker.io/library/app_db", tag := "1" }, { repo := "docker.io/library/app/db", tag := "1" }]

def underscoredRun : List (Execution String) :=
  underscored.map fun d => {
    download := d
    localhost := "localhost"
    firstControlPlane := "node1"
    downloadLocalhost := false
    managerOnLocalhost := .docker
    keepRemoteCache := false
    hosts := ["node1", "node2"]
    pullRequired := fun h => h = "node2" }

end Served

end Kubespray.Download

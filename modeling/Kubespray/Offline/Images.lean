import Kubespray.Lib.LineEdit
import Kubespray.Lib.OrderedDict
import Kubespray.Lib.Runs
import Kubespray.Lib.Text
import Mathlib.Data.Bool.AllAny

/-! contrib/offline/manage-offline-container-images.sh: the tar files that `create` makes of the
images in use, and the names under which `register` pushes them to the local registry. -/
namespace Kubespray.Offline
open Grep LineEdit

/-- An image reference `registry/path:tag`, over the characters of such names. -/
structure Reference where
  text : String
  plain : ∀ c ∈ text.toList, c.isAlphanum ∨ c ∈ ['.', '_', '-', '/', ':']
  deriving DecidableEq

def retryCount : Nat := 5

/-- FILE_NAME: every `/` and `:` of the reference becomes `-`. -/
def fileName (r : Reference) : String :=
  String.ofList (r.text.toList.map fun c => if c = '/' ∨ c = ':' then '-' else c) ++ ".tar"

def firstPart (r : Reference) : String := String.ofList (r.text.toList.takeWhile (· ≠ '/'))

def knownRegistries : List String := ["k8s.gcr.io", "gcr.io", "ghcr.io", "docker.io", "quay.io"]

/-- What IMAGE_LIST has of the reference: the first part is dropped where it is a known registry. -/
def listedName (r : Reference) : String :=
  if firstPart r ∈ knownRegistries then
    String.ofList (subFirst (compile ((firstPart r).toList ++ ['/'])) [] r.text.toList)
  else r.text

section Script
variable {Image : Type} (pull : Reference → Nat → Option Image)

/-- The steps of `docker pull`; the script gives up after the last. -/
def pulled (r : Reference) : Option Image := (List.range' 1 retryCount).findSome? (pull r)

/-- The directory container-images with its list. -/
structure ImageDir (Image : Type) where
  files : OrderedDict String Image
  imageList : List (String × String)

/-- One round of the loop in create_container_image_tar. -/
def saveImage (d : ImageDir Image) (r : Reference) : Option (ImageDir Image) := do
  let image ← pulled pull r
  some ⟨d.files.setItem (fileName r) image, d.imageList ++ [(fileName r, listedName r)]⟩

/-- create_container_image_tar; the image of the registry itself is saved first. -/
def createContainerImageTar (registryImage : Image) (images : List Reference) :
    Option (ImageDir Image) :=
  images.foldlM (saveImage pull)
    ⟨(∅ : OrderedDict String Image).setItem "registry-latest.tar" registryImage, []⟩

def newImage (localhostName orgImage : String) : String := localhostName ++ ":5000/" ++ orgImage

/-- One line of IMAGE_LIST in register_container_images. -/
def pushImage (localhostName : String) (d : ImageDir Image) (registry : OrderedDict String Image)
    (line : String × String) : Option (OrderedDict String Image) := do
  let image ← d.files.lookup line.1
  some (registry.setItem (newImage localhostName line.2) image)

/-- What the local registry holds after register_container_images. -/
def registerContainerImages (localhostName : String) (d : ImageDir Image) :
    Option (OrderedDict String Image) :=
  d.imageList.foldlM (pushImage localhostName d) ∅

end Script

section Names

def IsSeparator (c : Char) : Prop := c ∈ ['/', ':', '-']

/-- Character by character, the references differ in nothing but their separators. -/
def SameButSeparators (r r' : Reference) : Prop :=
  List.Forall₂ (fun c d => c = d ∨ (IsSeparator c ∧ IsSeparator d)) r.text.toList r'.text.toList

/-- The reference is `x` behind a known registry, or `x` where that does not start with one. -/
def Reference.Names (r : Reference) (x : String) : Prop :=
  (∃ p ∈ knownRegistries, r.text = p ++ "/" ++ x) ∨
    (r.text = x ∧ ∀ p ∈ knownRegistries, ∀ y, x ≠ p ++ "/" ++ y)

def SameButRegistry (r r' : Reference) : Prop := ∃ x, r.Names x ∧ r'.Names x

theorem fileName_eq_iff (r r' : Reference) : fileName r = fileName r' ↔ SameButSeparators r r' := by
  have hsame : (fun c d : Char => c = d ∨ (((c = '/' ∨ c = ':') ∨ c = '-') ∧ ((d = '/' ∨ d = ':') ∨ d = '-'))) =
      fun c d => c = d ∨ (IsSeparator c ∧ IsSeparator d) := by
    funext c d
    simp [IsSeparator, or_assoc]
  rw [← String.toList_inj, fileName, fileName, String.toList_append, String.toList_append,
    List.append_cancel_right_eq, String.toList_ofList, String.toList_ofList, map_ite_eq_iff, hsame,
    SameButSeparators]

theorem listedName_of_known {r : Reference} {p x : String} (hp : p ∈ knownRegistries)
    (hr : r.text = p ++ "/" ++ x) : listedName r = x := by
  have hslash : ∀ p ∈ knownRegistries, '/' ∉ p.toList := by decide
  have htext : r.text.toList = (p.toList ++ ['/']) ++ x.toList := by simp [hr]
  have hfirst : firstPart r = p := by
    have hno : ∀ c ∈ p.toList, decide (c ≠ '/') = true := by
      intro c hc
      have hne : c ≠ '/' := fun he => hslash p hp (he ▸ hc)
      simpa using hne
    rw [firstPart, htext, List.append_assoc, List.singleton_append,
      List.takeWhile_append_of_pos hno]
    simp
  rw [listedName, hfirst, if_pos hp, htext, subFirst_compile _ _ _ (by simp)]
  simp

theorem listedName_of_not {r : Reference} (hr : ∀ p ∈ knownRegistries, ∀ y, r.text ≠ p ++ "/" ++ y) :
    listedName r = r.text := by
  rw [listedName]
  split
  case isFalse => rfl
  case isTrue hp =>
    have hcut := List.takeWhile_append_dropWhile (p := fun c => decide (c ≠ '/'))
      (l := r.text.toList)
    cases hd : r.text.toList.dropWhile fun c => decide (c ≠ '/') with
    | nil =>
      -- The reference has no slash: the pattern is longer than the text.
      rw [hd, List.append_nil] at hcut
      have hno : search (compile ((firstPart r).toList ++ ['/'])) r.text.toList = false := by
        by_contra hs
        obtain ⟨u, w, v, htext, hw⟩ := (search_iff _ _).mp (by simpa using hs)
        have hlen := hw.length_eq
        have htotal := congrArg List.length htext
        simp only [compile, firstPart, String.toList_ofList, hcut, List.length_map,
          List.length_append, List.length_singleton] at hlen htotal
        omega
      rw [subFirst_of_not_search hno, String.ofList_toList]
    | cons c y =>
      have hc : c = '/' := by
        have h := List.head?_dropWhile_not (fun c => decide (c ≠ '/')) r.text.toList
        rw [hd] at h
        simpa using h
      refine absurd ?_ (hr (firstPart r) hp (String.ofList y))
      rw [hd, hc] at hcut
      rw [← String.toList_inj, ← hcut]
      simp [firstPart]

theorem listedName_eq_iff (r : Reference) (x : String) : listedName r = x ↔ r.Names x := by
  constructor
  · rintro rfl
    by_cases hr : ∃ p ∈ knownRegistries, ∃ y, r.text = p ++ "/" ++ y
    · obtain ⟨p, hp, y, hy⟩ := hr
      exact .inl ⟨p, hp, by rw [listedName_of_known hp hy, hy]⟩
    · have hno : ∀ p ∈ knownRegistries, ∀ y, r.text ≠ p ++ "/" ++ y := fun p hp y hy =>
        hr ⟨p, hp, y, hy⟩
      rw [listedName_of_not hno]
      exact .inr ⟨rfl, hno⟩
  · intro hx
    cases hx with
    | inl hknown =>
      obtain ⟨p, hp, hr⟩ := hknown
      exact listedName_of_known hp hr
    | inr hplain =>
      obtain ⟨rfl, hno⟩ := hplain
      exact listedName_of_not hno

theorem newImage_eq_iff (localhostName : String) (r r' : Reference) :
    newImage localhostName (listedName r) = newImage localhostName (listedName r') ↔
      SameButRegistry r r' := by
  have hinj : newImage localhostName (listedName r) = newImage localhostName (listedName r') ↔
      listedName r = listedName r' := by
    rw [newImage, newImage, String.append_right_inj]
  rw [hinj, SameButRegistry]
  constructor
  · intro h
    exact ⟨listedName r, (listedName_eq_iff r _).mp rfl, (listedName_eq_iff r' _).mp h.symm⟩
  · intro hex
    obtain ⟨x, hr, hr'⟩ := hex
    rw [(listedName_eq_iff r x).mpr hr, (listedName_eq_iff r' x).mpr hr']

end Names

section Mirror
variable {Image : Type}

/-- The tar files and the list after the loop: one entry for each reference in turn. -/
theorem saveImages_spec (pull : Reference → Nat → Option Image) (images : List Reference)
    (d d' : ImageDir Image) (h : images.foldlM (saveImage pull) d = some d') :
    ∃ es : List (Reference × Image), es.map Prod.fst = images ∧
      (∀ e ∈ es, pulled pull e.1 = some e.2) ∧
      d'.files = d.files.setAll (es.map fun e => (fileName e.1, e.2)) ∧
      d'.imageList = d.imageList ++ es.map fun e => (fileName e.1, listedName e.1) := by
  induction images generalizing d with
  | nil =>
    obtain rfl : d = d' := Option.some.inj h
    exact ⟨[], rfl, by simp, rfl, by simp⟩
  | cons r images ih =>
    rw [List.foldlM_cons, saveImage] at h
    obtain ⟨d1, hd1, hrest⟩ := Option.bind_eq_some_iff.mp h
    obtain ⟨image, himage, hd1⟩ := Option.bind_eq_some_iff.mp hd1
    obtain rfl := Option.some.inj hd1
    obtain ⟨es, hes, hpulled, hfiles, hlist⟩ := ih _ hrest
    refine ⟨(r, image) :: es, by simp [hes], ?_, ?_, ?_⟩
    · exact List.forall_mem_cons.mpr ⟨himage, hpulled⟩
    · rw [hfiles]
      rfl
    · rw [hlist]
      simp

/-- Where the files have the image of each entry, they are pushed one after the other. -/
theorem pushImages_eq (localhostName : String) (d : ImageDir Image) (es : List (Reference × Image))
    (hfiles : ∀ e ∈ es, d.files.lookup (fileName e.1) = some e.2)
    (registry : OrderedDict String Image) :
    (es.map fun e => (fileName e.1, listedName e.1)).foldlM (pushImage localhostName d) registry =
      some (registry.setAll (es.map fun e => (newImage localhostName (listedName e.1), e.2))) := by
  induction es generalizing registry with
  | nil => rfl
  | cons e es ih =>
    have hstep : pushImage localhostName d registry (fileName e.1, listedName e.1) =
        some (registry.setItem (newImage localhostName (listedName e.1)) e.2) := by
      rw [pushImage, hfiles e (by simp)]
      rfl
    rw [List.map_cons, List.foldlM_cons, hstep]
    exact ih (fun x hx => hfiles x (List.mem_cons_of_mem e hx)) _

/-- An update under keys that tell the references apart has each one's image. -/
theorem lookup_setAll_images (d : OrderedDict String Image) (key : Reference → String)
    (pull : Reference → Nat → Option Image) (es : List (Reference × Image))
    (hpulled : ∀ e ∈ es, pulled pull e.1 = some e.2)
    (hkey : ∀ e ∈ es, ∀ e' ∈ es, key e.1 = key e'.1 → e.1 = e'.1) (e : Reference × Image)
    (he : e ∈ es) : (d.setAll (es.map fun e => (key e.1, e.2))).lookup (key e.1) = some e.2 := by
  have hmem : key e.1 ∈ (es.map fun e => (key e.1, e.2)).map Prod.fst := by
    rw [List.map_map]
    exact List.mem_map.mpr ⟨e, he, rfl⟩
  obtain ⟨v, hv, hin⟩ := d.lookup_setAll_of_mem _ _ hmem
  obtain ⟨e', he', heq⟩ := List.mem_map.mp hin
  obtain ⟨hkeys, rfl⟩ := Prod.mk.inj heq
  have hsame := hkey e' he' e he hkeys
  have himage := hpulled e' he'
  rw [hsame, hpulled e he] at himage
  rw [hv, Option.some.inj himage]

/-- Different references have different tar files and are pushed under different names, and what
is then pulled for a reference is the image that was saved for it. -/
structure KeepsIdentity (localhostName : String) (images : List Reference) : Prop where
  tarFiles : ∀ r ∈ images, ∀ r' ∈ images, r ≠ r' → fileName r ≠ fileName r'
  pushed : ∀ r ∈ images, ∀ r' ∈ images, r ≠ r' →
    newImage localhostName (listedName r) ≠ newImage localhostName (listedName r')
  served : ∀ (Image : Type) (pull : Reference → Nat → Option Image) (registryImage : Image)
    (d : ImageDir Image), createContainerImageTar pull registryImage images = some d →
      ∃ registry, registerContainerImages localhostName d = some registry ∧
        ∀ r ∈ images, registry.lookup (newImage localhostName (listedName r)) = pulled pull r

theorem keepsIdentity_iff (localhostName : String) (images : List Reference) :
    KeepsIdentity localhostName images ↔ ∀ r ∈ images, ∀ r' ∈ images, r ≠ r' →
      ¬ SameButSeparators r r' ∧ ¬ SameButRegistry r r' := by
  constructor
  · intro h r hr r' hr' hne
    rw [← fileName_eq_iff, ← newImage_eq_iff localhostName]
    exact ⟨h.tarFiles r hr r' hr' hne, h.pushed r hr r' hr' hne⟩
  · intro hapart
    have htar : ∀ r ∈ images, ∀ r' ∈ images, r ≠ r' → fileName r ≠ fileName r' := by
      intro r hr r' hr' hne
      exact fun heq => (hapart r hr r' hr' hne).1 ((fileName_eq_iff r r').mp heq)
    have hpush : ∀ r ∈ images, ∀ r' ∈ images, r ≠ r' →
        newImage localhostName (listedName r) ≠ newImage localhostName (listedName r') := by
      intro r hr r' hr' hne
      exact fun heq => (hapart r hr r' hr' hne).2 ((newImage_eq_iff localhostName r r').mp heq)
    refine ⟨htar, hpush, fun Image pull registryImage d hd => ?_⟩
    obtain ⟨es, rfl, hpulled, hfiles, hlist⟩ := saveImages_spec pull images _ d hd
    have hmem : ∀ e ∈ es, e.1 ∈ es.map Prod.fst := fun e he => List.mem_map_of_mem he
    have hsaved : ∀ e ∈ es, d.files.lookup (fileName e.1) = some e.2 := by
      intro e he
      rw [hfiles]
      refine lookup_setAll_images _ fileName pull es hpulled (fun x hx y hy hxy => ?_) e he
      by_contra hne
      exact htar x.1 (hmem x hx) y.1 (hmem y hy) hne hxy
    refine ⟨_, by rw [registerContainerImages, hlist, List.nil_append,
      pushImages_eq localhostName d es hsaved], fun r hr => ?_⟩
    obtain ⟨e, he, rfl⟩ := List.mem_map.mp hr
    rw [hpulled e he]
    refine lookup_setAll_images _ (fun r => newImage localhostName (listedName r)) pull es hpulled
      (fun x hx y hy hxy => ?_) e he
    by_contra hne
    exact hpush x.1 (hmem x hx) y.1 (hmem y hy) hne hxy

def slashReference : Reference := ⟨"quay.io/a/b:1", List.all_iff_forall_prop.mp (by decide)⟩

def dashReference : Reference := ⟨"quay.io/a-b:1", List.all_iff_forall_prop.mp (by decide)⟩

/-- Two references whose paths differ in a slash only share their tar file. -/
theorem slash_dash_share_tar : ¬ ∀ (localhostName : String) (images : List Reference),
    KeepsIdentity localhostName images := by
  intro h
  exact (h "localhost" [slashReference, dashReference]).tarFiles slashReference (by simp)
    dashReference (by simp) (by decide) (by decide)

end Mirror
end Kubespray.Offline

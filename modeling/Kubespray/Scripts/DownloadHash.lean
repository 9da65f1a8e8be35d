import Kubespray.Lib.OrderedDict
import Kubespray.Lib.Runs

/-! scripts/download_hash.py: the checksums of new versions are recorded in the tables of
roles/download/defaults/main.yml. -/
namespace Kubespray.Scripts

/-- The checksums of a download for one architecture, by version. -/
abbrev Versions := OrderedDict String String

inductive Value where
  | table (archs : OrderedDict String Versions)
  | other (text : String)

abbrev Data := OrderedDict String Value

inductive Error where
  | keyError (key : String)
  | typeError
  | httpError (url : String)

def architectures : List String := ["arm", "arm64", "amd64"]

def downloads : List String := ["kubelet", "kubectl", "kubeadm"]

def checksumName (download : String) : String := download ++ "_checksums"

def withV (version : String) : String := if version.startsWith "v" then version else "v" ++ version

def url (download arch version : String) : String :=
  "https://storage.googleapis.com/kubernetes-release/release/" ++ version ++ "/bin/linux/" ++ arch ++
    "/" ++ download

/-- `data[name][arch][version] = sum` -/
def setChecksum (data : Data) (name arch version sum : String) : Except Error Data :=
  match data.lookup name with
  | none => .error (.keyError name)
  | some (.other _) => .error .typeError
  | some (.table archs) => match archs.lookup arch with
    | none => .error (.keyError arch)
    | some versions =>
      .ok (data.setItem name (.table (archs.setItem arch (versions.setItem version sum))))

section Script
variable {content : Type} (sha256 : content → String) (served : String → content)

/-- One round of the loops, where `up` says which of the requests are answered. -/
def record (up : String → Bool) (download arch : String) (data : Data) (version : String) :
    Except Error Data :=
  let u := url download arch (withV version)
  if up u then setChecksum data (checksumName download) arch (withV version) (sha256 (served u))
  else .error (.httpError u)

def downloadHash (up : String → Bool) (versions : List String) (data : Data) : Except Error Data :=
  downloads.foldlM (fun data download => architectures.foldlM (fun data arch =>
    versions.foldlM (record sha256 served up download arch) data) data) data

/-- A call of the script. -/
structure Call where
  argv : List String
  up : String → Bool

/-- The file after the call: it is written at the end, so a call that raises leaves it as it was. -/
def main (file : Data) (c : Call) : Data :=
  if c.argv = [] then file
  else match downloadHash sha256 served c.up c.argv file with
    | .ok data => data
    | .error _ => file

end Script

section Tables

/-- What is done to every table of versions, under its name and architecture. -/
def mapVersions (f : String → String → Versions → Versions) (data : Data) : Data :=
  data.mapItems fun name v => match v with
    | .table archs => .table (archs.mapItems (f name))
    | .other text => .other text

def versionsAt (data : Data) (name arch : String) : Option Versions :=
  match data.lookup name with
  | some (.table archs) => archs.lookup arch
  | _ => none

@[simp] theorem versionsAt_mapVersions (f : String → String → Versions → Versions) (data : Data)
    (name arch : String) :
    versionsAt (mapVersions f data) name arch = (versionsAt data name arch).map (f name arch) := by
  rw [versionsAt, versionsAt, mapVersions, OrderedDict.lookup_mapItems]
  cases data.lookup name with
  | none => rfl
  | some v =>
    cases v with
    | table archs => exact archs.lookup_mapItems (f name) arch
    | other text => rfl

theorem mapVersions_mapVersions (f g : String → String → Versions → Versions) (data : Data) :
    mapVersions g (mapVersions f data) = mapVersions (fun n a l => g n a (f n a l)) data := by
  rw [mapVersions, mapVersions, OrderedDict.mapItems_mapItems, mapVersions]
  congr 1
  funext name v
  cases v with
  | table archs => exact congrArg Value.table (archs.mapItems_mapItems _ _)
  | other text => rfl

theorem mapVersions_self (data : Data) : mapVersions (fun _ _ l => l) data = data := by
  have hid : ∀ v : Value, (match v with
      | .table archs => .table (archs.mapItems fun _ l => l)
      | .other text => .other text : Value) = v := by
    intro v
    cases v with
    | table archs => exact congrArg Value.table archs.mapItems_self
    | other text => rfl
  rw [mapVersions]
  simp only [hid]
  exact data.mapItems_self

theorem foldl_mapVersions {ι : Type*} (f : ι → String → String → Versions → Versions) (is : List ι)
    (data : Data) : is.foldl (fun d i => mapVersions (f i) d) data =
      mapVersions (fun n a l => is.foldl (fun l i => f i n a l) l) data := by
  induction is generalizing data with
  | nil => exact (mapVersions_self data).symm
  | cons i is ih =>
    rw [List.foldl_cons, ih, mapVersions_mapVersions]
    rfl

/-- What `setChecksum` does where it does not raise. -/
def setAt (name arch version sum : String) : Data → Data :=
  mapVersions fun n a l => if n = name ∧ a = arch then l.setItem version sum else l

theorem setChecksum_eq_ok_iff (data data' : Data) (name arch version sum : String) :
    setChecksum data name arch version sum = .ok data' ↔
      (versionsAt data name arch).isSome = true ∧ data' = setAt name arch version sum data := by
  rw [setChecksum, versionsAt]
  cases hname : data.lookup name with
  | none => simp
  | some v =>
    cases v with
    | other text => simp
    | table archs =>
      dsimp only
      cases harch : archs.lookup arch with
      | none => simp
      | some versions =>
        have hk := (data.mem_keys_iff name).mpr ⟨_, hname⟩
        have ha := (archs.mem_keys_iff arch).mpr ⟨_, harch⟩
        have heq : data.setItem name (.table (archs.setItem arch (versions.setItem version sum))) =
            setAt name arch version sum data := by
          rw [data.setItem_eq_mapItems name _ hk, archs.setItem_eq_mapItems arch _ ha, setAt,
            mapVersions]
          refine OrderedDict.mapItems_congr fun n v hv => ?_
          by_cases hn : n = name
          · obtain rfl : v = .table archs := Option.some.inj (hv.symm.trans (hn ▸ hname))
            rw [if_pos hn]
            refine congrArg Value.table (OrderedDict.mapItems_congr fun a l hl => ?_)
            by_cases h : a = arch
            · obtain rfl : l = versions := Option.some.inj (hl.symm.trans (h ▸ harch))
              rw [if_pos h, if_pos ⟨hn, h⟩]
            · rw [if_neg h, if_neg fun hand => h hand.2]
          · rw [if_neg hn]
            cases v with
            | table t =>
              refine congrArg Value.table (t.mapItems_self.symm.trans
                (OrderedDict.mapItems_congr fun a l _ => ?_))
              rw [if_neg fun hand => hn hand.1]
            | other text => rfl
        simp [heq, eq_comm]

end Tables

section Recorded
variable {content : Type} (sha256 : content → String) (served : String → content)

def checksum (download arch version : String) : String := sha256 (served (url download arch version))

/-- What a round does where it does not raise. -/
def setVersion (download arch : String) (data : Data) (version : String) : Data :=
  setAt (checksumName download) arch (withV version)
    (checksum sha256 served download arch (withV version)) data

/-- The data with the checksums of the versions, for every download and architecture. -/
def recorded (versions : List String) : Data → Data := mapVersions fun n a l =>
  match downloads.find? (fun d => checksumName d = n) with
  | some d => if a ∈ architectures then
      l.setAll (versions.map fun v => (withV v, checksum sha256 served d a (withV v))) else l
  | none => l

def Tables (data : Data) : Prop := ∀ d ∈ downloads, ∀ a ∈ architectures,
  (versionsAt data (checksumName d) a).isSome = true

def Answered (up : String → Bool) (versions : List String) : Prop := ∀ d ∈ downloads,
  ∀ a ∈ architectures, ∀ v ∈ versions, up (url d a (withV v)) = true

theorem foldl_ite_const {ι β : Type*} (c : Prop) [Decidable c] (f : β → ι → β) (is : List ι) (s : β) :
    is.foldl (fun s i => if c then f s i else s) s = if c then is.foldl f s else s := by
  by_cases h : c
  · simp only [if_pos h]
  · simp only [if_neg h, List.foldl_fixed]

theorem foldl_architectures (f : String → Versions → Versions) (arch : String) (l : Versions) :
    architectures.foldl (fun l a => if a = arch then f a l else l) l =
      if arch ∈ architectures then f arch l else l := by
  refine (Runs.foldl_of_key id f arch (by decide) l).trans ?_
  by_cases h : arch ∈ architectures
  · have hfind : architectures.find? (fun a => decide (id a = arch)) = some arch := by
      have hcases : arch = "arm" ∨ arch = "arm64" ∨ arch = "amd64" := by simpa [architectures] using h
      rcases hcases with rfl | rfl | rfl <;> decide
    rw [hfind, if_pos h]
  · have hfind : architectures.find? (fun a => decide (id a = arch)) = none :=
      List.find?_eq_none.mpr fun a ha he => h (of_decide_eq_true he ▸ ha)
    rw [hfind, if_neg h]

theorem foldl_setVersion (versions : List String) (data : Data) :
    downloads.foldl (fun s d => architectures.foldl (fun s a =>
      versions.foldl (setVersion sha256 served d a) s) s) data =
        recorded sha256 served versions data := by
  unfold setVersion
  simp only [setAt, foldl_mapVersions]
  refine congrArg (mapVersions · data) ?_
  funext n b l
  have hround : ∀ (d a : String) (l : Versions), versions.foldl (fun l v =>
      if n = checksumName d ∧ b = a then
        l.setItem (withV v) (checksum sha256 served d a (withV v)) else l) l =
      if checksumName d = n then if a = b then
        l.setAll (versions.map fun v => (withV v, checksum sha256 served d a (withV v))) else l
      else l := by
    intro d a l
    rw [foldl_ite_const, OrderedDict.setAll, List.foldl_map]
    by_cases hn : checksumName d = n
    · by_cases hb : a = b
      · rw [if_pos ⟨hn.symm, hb.symm⟩, if_pos hn, if_pos hb]
      · rw [if_neg fun h => hb h.2.symm, if_pos hn, if_neg hb]
    · rw [if_neg fun h => hn h.1.symm, if_neg hn]
  simp only [hround, foldl_ite_const, foldl_architectures]
  have hnd : (downloads.map checksumName).Nodup := by decide
  refine (Runs.foldl_of_key checksumName (fun d l => if b ∈ architectures then
    l.setAll (versions.map fun v => (withV v, checksum sha256 served d b (withV v))) else l) n
    hnd l).trans ?_
  cases downloads.find? fun d => checksumName d = n with
  | none => rfl
  | some d => rfl

theorem record_eq_ok_iff (up : String → Bool) (download arch version : String) (data data' : Data) :
    record sha256 served up download arch data version = .ok data' ↔
      (up (url download arch (withV version)) = true ∧
        (versionsAt data (checksumName download) arch).isSome = true) ∧
      data' = setVersion sha256 served download arch data version := by
  rw [record]
  by_cases hup : up (url download arch (withV version)) = true
  · rw [if_pos hup, setChecksum_eq_ok_iff, setVersion, checksum]
    simp [hup]
  · rw [if_neg hup]
    simp [hup]

/-- The same tables are there, whatever they hold. -/
def SameTables (data data' : Data) : Prop := ∀ n a,
  (versionsAt data' n a).isSome = (versionsAt data n a).isSome

theorem SameTables.mapVersions {data data' : Data} (h : SameTables data data')
    (f : String → String → Versions → Versions) : SameTables data (mapVersions f data') := by
  intro n a
  rw [versionsAt_mapVersions, Option.isSome_map, h n a]

theorem SameTables.foldl {ι : Type*} {data s : Data} (h : SameTables data s) {g : Data → ι → Data}
    (hg : ∀ s i, SameTables data s → SameTables data (g s i)) (is : List ι) :
    SameTables data (is.foldl g s) :=
  List.foldlRecOn is g h fun s hs i _ => hg s i hs

/-- The script completes where all tables are there and every request is answered. -/
theorem downloadHash_eq_ok_iff (up : String → Bool) {versions : List String} (hne : versions ≠ [])
    (data data' : Data) : downloadHash sha256 served up versions data = .ok data' ↔
      (Tables data ∧ Answered up versions) ∧ data' = recorded sha256 served versions data := by
  have hkeep : ∀ d a s v, SameTables data s → SameTables data (setVersion sha256 served d a s v) :=
    fun d a s v hs => hs.mapVersions _
  have hkeepAll : ∀ d s a, SameTables data s →
      SameTables data (versions.foldl (setVersion sha256 served d a) s) :=
    fun d s a hs => hs.foldl (hkeep d a) versions
  have hinner : ∀ d s a s', SameTables data s →
      (versions.foldlM (record sha256 served up d a) s = .ok s' ↔
        (∀ v ∈ versions, up (url d a (withV v)) = true ∧
          (versionsAt data (checksumName d) a).isSome = true) ∧
        s' = versions.foldl (setVersion sha256 served d a) s) := by
    intro d s a s' hs
    refine Runs.foldlM_eq_ok_iff (hkeep d a) (fun s v s' hs => ?_) versions hs
    rw [record_eq_ok_iff, hs (checksumName d) a]
  have hmiddle := fun s d s' (hs : SameTables data s) =>
    Runs.foldlM_eq_ok_iff (t := s') (hkeepAll d) (hinner d) architectures hs
  have houter := Runs.foldlM_eq_ok_iff (t := data')
    (fun s d hs => SameTables.foldl hs (hkeepAll d) architectures) hmiddle downloads
    (fun _ _ => rfl : SameTables data data)
  rw [downloadHash, houter, ← foldl_setVersion]
  refine and_congr_left fun _ => ?_
  obtain ⟨v₀, hv₀⟩ := List.exists_mem_of_ne_nil versions hne
  constructor
  · intro h
    exact ⟨fun d hd a ha => (h d hd a ha v₀ hv₀).2, fun d hd a ha v hv => (h d hd a ha v hv).1⟩
  · intro h d hd a ha v hv
    exact ⟨h.2 d hd a ha v hv, h.1 d hd a ha⟩

theorem recorded_nil (data : Data) : recorded sha256 served [] data = data := by
  rw [recorded]
  refine Eq.trans (congrArg (mapVersions · data) ?_) (mapVersions_self data)
  funext n a l
  cases downloads.find? fun d => checksumName d = n with
  | none => rfl
  | some d => exact ite_self l

theorem recorded_append (us vs : List String) (data : Data) :
    recorded sha256 served (us ++ vs) data =
      recorded sha256 served vs (recorded sha256 served us data) := by
  rw [recorded, recorded, recorded, mapVersions_mapVersions]
  refine congrArg (mapVersions · data) ?_
  funext n a l
  cases downloads.find? fun d => checksumName d = n with
  | none => rfl
  | some d =>
    by_cases ha : a ∈ architectures
    · simp only [if_pos ha, List.map_append, OrderedDict.setAll_append]
    · simp only [if_neg ha]

theorem tables_recorded_iff (versions : List String) (data : Data) :
    Tables (recorded sha256 served versions data) ↔ Tables data := by
  simp only [Tables, recorded, versionsAt_mapVersions, Option.isSome_map]

instance Tables.decidable (data : Data) : Decidable (Tables data) :=
  inferInstanceAs (Decidable (∀ d ∈ downloads, ∀ a ∈ architectures, _ = true))

instance Answered.decidable (up : String → Bool) (versions : List String) :
    Decidable (Answered up versions) :=
  inferInstanceAs (Decidable (∀ d ∈ downloads, ∀ a ∈ architectures, ∀ v ∈ versions, _ = true))

theorem main_eq (file : Data) (c : Call) : main sha256 served file c =
    if Tables file ∧ Answered c.up c.argv then recorded sha256 served c.argv file else file := by
  rw [main]
  by_cases hne : c.argv = []
  · rw [if_pos hne, hne, recorded_nil, ite_self]
  · rw [if_neg hne]
    have hiff := downloadHash_eq_ok_iff sha256 served c.up hne file
    by_cases hgood : Tables file ∧ Answered c.up c.argv
    · rw [if_pos hgood, (hiff _).mpr ⟨hgood, rfl⟩]
    · rw [if_neg hgood]
      cases hrun : downloadHash sha256 served c.up c.argv file with
      | ok data => exact absurd ((hiff data).mp hrun).1 hgood
      | error e => rfl

/-- The versions of the calls that complete. -/
def completedVersions (file : Data) (cs : List Call) : List String :=
  (cs.filter fun c => Tables file ∧ Answered c.up c.argv).flatMap Call.argv

/-- Calls leave what one call for all the versions of those that complete would leave. -/
theorem foldl_main (cs : List Call) (file : Data) :
    cs.foldl (main sha256 served) file = recorded sha256 served (completedVersions file cs) file := by
  have hinv : ∀ s, (Tables s ↔ Tables file) → cs.foldl (main sha256 served) s =
      recorded sha256 served (completedVersions file cs) s := by
    induction cs with
    | nil => exact fun s _ => (recorded_nil sha256 served s).symm
    | cons c cs ih =>
      intro s hs
      rw [List.foldl_cons, main_eq, completedVersions]
      by_cases hgood : Tables file ∧ Answered c.up c.argv
      · have hgood' : Tables s ∧ Answered c.up c.argv := ⟨hs.mpr hgood.1, hgood.2⟩
        rw [if_pos hgood', ih _ ((tables_recorded_iff sha256 served c.argv s).trans hs),
          List.filter_cons_of_pos (by simpa using hgood), List.flatMap_cons, recorded_append,
          completedVersions]
      · have hbad : ¬ (Tables s ∧ Answered c.up c.argv) := fun h => hgood ⟨hs.mp h.1, h.2⟩
        rw [if_neg hbad, ih s hs, List.filter_cons_of_neg (by simpa using hgood), completedVersions]
  exact hinv file Iff.rfl

theorem mem_completedVersions_iff (file : Data) (cs : List Call) (v : String) :
    v ∈ completedVersions file cs ↔ Tables file ∧ ∃ c ∈ cs, Answered c.up c.argv ∧ v ∈ c.argv := by
  simp only [completedVersions, List.mem_flatMap, List.mem_filter, decide_eq_true_iff]
  constructor
  · rintro ⟨c, ⟨hc, ht, ha⟩, hv⟩
    exact ⟨ht, c, hc, ha, hv⟩
  · rintro ⟨ht, c, hc, ha, hv⟩
    exact ⟨c, ⟨hc, ht, ha⟩, hv⟩

def sumAt (data : Data) (download arch version : String) : Option String :=
  (versionsAt data (checksumName download) arch).bind (·.lookup version)

theorem find?_checksumName {download : String} (h : download ∈ downloads) :
    downloads.find? (fun d => checksumName d = checksumName download) = some download := by
  have hcases : download = "kubelet" ∨ download = "kubectl" ∨ download = "kubeadm" := by
    simpa [downloads] using h
  rcases hcases with rfl | rfl | rfl <;> decide

theorem sumAt_recorded {data : Data} (ht : Tables data) (versions : List String)
    {download arch : String} (hd : download ∈ downloads) (ha : arch ∈ architectures)
    (version : String) : sumAt (recorded sha256 served versions data) download arch version =
      if version ∈ versions.map withV then some (checksum sha256 served download arch version)
      else sumAt data download arch version := by
  obtain ⟨l, hl⟩ := Option.isSome_iff_exists.mp (ht download hd arch ha)
  rw [sumAt, recorded, versionsAt_mapVersions, sumAt, hl, Option.map_some, Option.bind_some,
    Option.bind_some, find?_checksumName hd]
  dsimp only
  rw [if_pos ha]
  have hkeys : (versions.map fun v =>
      (withV v, checksum sha256 served download arch (withV v))).map Prod.fst = versions.map withV := by
    rw [List.map_map]
    rfl
  by_cases hv : version ∈ versions.map withV
  · obtain ⟨sum, hlookup, hmem⟩ := l.lookup_setAll_of_mem _ version (hkeys.symm ▸ hv)
    obtain ⟨v, -, he⟩ := List.mem_map.mp hmem
    obtain ⟨rfl, rfl⟩ := Prod.mk.inj he
    rw [if_pos hv, hlookup]
  · rw [if_neg hv, l.lookup_setAll_of_not_mem _ version (hkeys.symm ▸ hv)]

end Recorded

end Kubespray.Scripts

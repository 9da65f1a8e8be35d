import Kubespray.Lib.Runs
import Mathlib.Data.List.Perm.Basic
import Mathlib.Logic.Equiv.Basic

/-! encrypt-at-rest.yml: the key that secrets_encryption.yaml holds on each master, in a play
that goes over the control plane in batches. -/
namespace Kubespray.ControlPlane

/-- What b64encode and b64decode are relied on for. -/
structure Base64 (Key Text : Type) where
  encode : Key → Text
  decode : Text → Key
  decode_encode : ∀ k, decode (encode k) = k

/-- secrets_encryption.yaml, which names one provider with one key. -/
structure EncryptionConfig (Text : Type) where
  resources : List String
  algorithm : String
  secret : Text

structure EncryptSettings where
  kubeEncryptionAlgorithm : String := "aescbc"
  kubeEncryptionResources : List String := ["secrets"]

/-- The group kube_control_plane. -/
structure MasterGroup (α : Type) where
  masters : List α
  nodup : masters.Nodup

/-- How a play goes over the group: all at once, or batch after batch. -/
structure Batching {α : Type} (g : MasterGroup α) where
  batches : List (List α)
  nonempty : ∀ batch ∈ batches, batch ≠ []
  all : batches.flatten.Perm g.masters

/-- What the tasks read and write of one master: its file and two of its facts. -/
structure Master (Key Text : Type) where
  secretsEncryption : Option (EncryptionConfig Text)
  kubeEncryptToken : Option Key
  kubeEncryptTokenExtracted : Option Key

section Tasks
variable {α Key Text : Type} [DecidableEq α] (b : Base64 Key Text) (s : EncryptSettings)

/-- `json_query(secrets_encryption_query) | first | b64decode`: there is no first result, and
the task fails, where the file names another provider. -/
def secretValue (c : EncryptionConfig Text) : Option Key :=
  if c.algorithm = s.kubeEncryptionAlgorithm then some (b.decode c.secret) else none

/-- Extract secret value from secrets_encryption.yaml. -/
def extractSecret (m : Master Key Text) : Option (Master Key Text) :=
  match m.secretsEncryption with
  | none => some m
  | some c => (secretValue b s c).map fun k => { m with kubeEncryptTokenExtracted := some k }

/-- Set kube_encrypt_token across master nodes. -/
def setToken (g : MasterGroup α) (st : α → Master Key Text) (h : α) : α → Master Key Text :=
  match (st h).kubeEncryptTokenExtracted with
  | none => st
  | some k => fun x => if x ∈ g.masters then { st x with kubeEncryptToken := some k } else st x

/-- Write secrets for encrypting secret data at rest; the default of kube_encrypt_token is the
password stored on the controller. -/
def writeSecrets (password : Key) (m : Master Key Text) : Master Key Text :=
  { m with secretsEncryption := some ⟨s.kubeEncryptionResources, s.kubeEncryptionAlgorithm,
      b.encode (m.kubeEncryptToken.getD password)⟩ }

/-- One task on the hosts of a batch, each of which has to go well. -/
def onBatch (batch : List α) (task : Master Key Text → Option (Master Key Text))
    (st : α → Master Key Text) : Option (α → Master Key Text) :=
  if ∀ h ∈ batch, (task (st h)).isSome then
    some fun x => if x ∈ batch then (task (st x)).getD (st x) else st x
  else none

/-- encrypt-at-rest.yml on one batch, task by task. -/
def encryptAtRest (g : MasterGroup α) (password : Key) (st : α → Master Key Text)
    (batch : List α) : Option (α → Master Key Text) := do
  let st ← onBatch batch (extractSecret b s) st
  let st := batch.foldl (setToken g) st
  onBatch batch (some ∘ writeSecrets b s password) st

/-- The play, batch after batch; facts outlive a batch. -/
def play (g : MasterGroup α) (password : Key) (batches : List (List α))
    (st : α → Master Key Text) : Option (α → Master Key Text) :=
  batches.foldlM (encryptAtRest b s g password) st

/-- The masters as the play finds them: there may be a file, there are no facts. -/
def found (files : α → Option (EncryptionConfig Text)) : α → Master Key Text :=
  fun h => ⟨files h, none, none⟩

/-- The file is there and its key is `k`. -/
def Holds (k : Key) (m : Master Key Text) : Prop :=
  ∃ c, m.secretsEncryption = some c ∧ secretValue b s c = some k

section Steps
variable {b s} {k : Key} {g : MasterGroup α}

theorem holds_writeSecrets (password : Key) (m : Master Key Text) :
    Holds b s k (writeSecrets b s password m) ↔ m.kubeEncryptToken.getD password = k := by
  simp [Holds, writeSecrets, secretValue, b.decode_encode]

/-- Nothing on the masters speaks of another key than `k`. -/
structure Agreed (b : Base64 Key Text) (s : EncryptSettings) (g : MasterGroup α) (k : Key)
    (st : α → Master Key Text) : Prop where
  files : ∀ m ∈ g.masters, ∀ c, (st m).secretsEncryption = some c → secretValue b s c = some k
  tokens : ∀ m ∈ g.masters, ∀ x, (st m).kubeEncryptToken = some x → x = k
  extracted : ∀ m ∈ g.masters, ∀ x, (st m).kubeEncryptTokenExtracted = some x → x = k

theorem extractSecret_of_file {m : Master Key Text}
    (h : ∀ c, m.secretsEncryption = some c → secretValue b s c = some k) :
    extractSecret b s m = some { m with kubeEncryptTokenExtracted :=
      if m.secretsEncryption.isSome then some k else m.kubeEncryptTokenExtracted } := by
  obtain ⟨file, token, extracted⟩ := m
  cases file with
  | none => rfl
  | some c => simp [extractSecret, h c rfl]

theorem onBatch_of_task {batch : List α} {task : Master Key Text → Option (Master Key Text)}
    {st f : α → Master Key Text} (h : ∀ m ∈ batch, task (st m) = some (f m)) :
    onBatch batch task st = some fun x => if x ∈ batch then f x else st x := by
  rw [onBatch, if_pos fun m hm => by rw [h m hm]; rfl]
  congr 1
  funext x
  split
  · rename_i hx
    rw [h x hx, Option.getD_some]
  · rfl

/-- The task leaves the files and the tokens, and the masters of the batch that have a file
now have its key as a fact. -/
theorem extractBatch_spec {st : α → Master Key Text} (hA : Agreed b s g k st) {batch : List α}
    (hb : batch ⊆ g.masters) : ∃ st', onBatch batch (extractSecret b s) st = some st' ∧
      Agreed b s g k st' ∧
      (∀ m, (st' m).secretsEncryption = (st m).secretsEncryption) ∧
      (∀ m, (st' m).kubeEncryptToken = (st m).kubeEncryptToken) ∧
      ∀ m ∈ batch, (st' m).kubeEncryptTokenExtracted =
        if (st m).secretsEncryption.isSome then some k else (st m).kubeEncryptTokenExtracted := by
  have htask : ∀ m ∈ batch, extractSecret b s (st m) = some { st m with
      kubeEncryptTokenExtracted := if (st m).secretsEncryption.isSome then some k
        else (st m).kubeEncryptTokenExtracted } :=
    fun m hm => extractSecret_of_file (hA.files m (hb hm))
  refine ⟨fun x => if x ∈ batch then { st x with
    kubeEncryptTokenExtracted := if (st x).secretsEncryption.isSome then some k
      else (st x).kubeEncryptTokenExtracted } else st x, ?_, ⟨?_, ?_, ?_⟩, ?_, ?_, ?_⟩
  · exact onBatch_of_task htask
  · intro m hm c hc
    refine hA.files m hm c ?_
    split at hc <;> exact hc
  · intro m hm x hx
    refine hA.tokens m hm x ?_
    split at hx <;> exact hx
  · intro m hm x hx
    split at hx
    · split at hx
      · exact (Option.some.inj hx).symm
      · exact hA.extracted m hm x hx
    · exact hA.extracted m hm x hx
  · intro m
    simp only
    split <;> rfl
  · intro m
    simp only
    split <;> rfl
  · intro m hm
    simp only [if_pos hm]

theorem setToken_spec {st : α → Master Key Text} (hA : Agreed b s g k st) {h : α}
    (hh : h ∈ g.masters) : Agreed b s g k (setToken g st h) ∧
      (∀ m, (setToken g st h m).secretsEncryption = (st m).secretsEncryption) ∧
      (∀ m, (setToken g st h m).kubeEncryptTokenExtracted = (st m).kubeEncryptTokenExtracted) ∧
      ∀ m ∈ g.masters, (setToken g st h m).kubeEncryptToken =
        if (st h).kubeEncryptTokenExtracted.isSome then some k else (st m).kubeEncryptToken := by
  rw [setToken]
  cases hx : (st h).kubeEncryptTokenExtracted with
  | none => exact ⟨hA, fun _ => rfl, fun _ => rfl, fun _ _ => rfl⟩
  | some x =>
    obtain rfl := hA.extracted h hh x hx
    refine ⟨⟨fun m hm c hc => ?_, fun m hm y hy => ?_, fun m hm y hy => ?_⟩, fun m => ?_,
      fun m => ?_, fun m hm => ?_⟩
    · simp only [if_pos hm] at hc
      exact hA.files m hm c hc
    · simp only [if_pos hm] at hy
      exact (Option.some.inj hy).symm
    · simp only [if_pos hm] at hy
      exact hA.extracted m hm y hy
    · simp only
      split <;> rfl
    · simp only
      split <;> rfl
    · simp [hm]

/-- Once a master of the batch has the key as a fact, all masters get it as their token. -/
theorem setTokens_spec {st : α → Master Key Text} (hA : Agreed b s g k st) {batch : List α}
    (hb : batch ⊆ g.masters) : Agreed b s g k (batch.foldl (setToken g) st) ∧
      (∀ m, (batch.foldl (setToken g) st m).secretsEncryption = (st m).secretsEncryption) ∧
      ∀ m ∈ g.masters, (batch.foldl (setToken g) st m).kubeEncryptToken =
        if ∃ h ∈ batch, (st h).kubeEncryptTokenExtracted.isSome then some k
        else (st m).kubeEncryptToken := by
  induction batch generalizing st with
  | nil => exact ⟨hA, fun _ => rfl, fun m _ => by simp⟩
  | cons h batch ih =>
    have hh : h ∈ g.masters := hb (by simp)
    obtain ⟨hA1, hfiles1, hextracted1, htokens1⟩ := setToken_spec hA hh
    obtain ⟨hA', hfiles, htokens⟩ := ih hA1 fun x hx => hb (List.mem_cons_of_mem h hx)
    refine ⟨hA', fun m => (hfiles m).trans (hfiles1 m), fun m hm => ?_⟩
    rw [List.foldl_cons, htokens m hm, htokens1 m hm]
    simp only [hextracted1, List.exists_mem_cons_iff]
    by_cases hx : (st h).kubeEncryptTokenExtracted.isSome <;> simp [hx]

theorem writeBatch_eq (password : Key) (batch : List α) (st : α → Master Key Text) :
    onBatch batch (some ∘ writeSecrets b s password) st =
      some fun x => if x ∈ batch then writeSecrets b s password (st x) else st x :=
  onBatch_of_task fun _ _ => rfl

/-- A batch that falls back on `k`, or of which some master has a file, ends with that key. -/
theorem encryptAtRest_agreed {st : α → Master Key Text} (hA : Agreed b s g k st)
    {batch : List α} (hb : batch ⊆ g.masters) {password : Key}
    (hk : password = k ∨ (∀ m ∈ g.masters, (st m).kubeEncryptToken = some k) ∨
      ∃ m ∈ batch, (st m).secretsEncryption.isSome) :
    ∃ st', encryptAtRest b s g password st batch = some st' ∧ Agreed b s g k st' ∧
      (password = k ∨ ∀ m ∈ g.masters, (st' m).kubeEncryptToken = some k) ∧
      ∀ m ∈ batch, Holds b s k (st' m) := by
  obtain ⟨st1, hst1, hA1, hfiles1, htokens1, hextracted1⟩ := extractBatch_spec hA hb
  obtain ⟨hA2, hfiles2, htokens2⟩ := setTokens_spec hA1 hb
  set st2 := batch.foldl (setToken g) st1 with hst2
  have hfallback : password = k ∨ ∀ m ∈ g.masters, (st2 m).kubeEncryptToken = some k := by
    refine hk.imp id fun hk m hm => ?_
    rw [htokens2 m hm]
    cases hk with
    | inl htok => simp [htokens1, htok m hm]
    | inr hfile =>
      obtain ⟨h, hh, hsome⟩ := hfile
      exact if_pos ⟨h, hh, by simp [hextracted1 h hh, hsome]⟩
  have hwrite : ∀ m ∈ batch, Holds b s k (writeSecrets b s password (st2 m)) := by
    intro m hm
    rw [holds_writeSecrets]
    cases hfallback with
    | inl hp =>
      cases htok : (st2 m).kubeEncryptToken with
      | none => exact hp
      | some x => exact hA2.tokens m (hb hm) x htok
    | inr htok => rw [htok m (hb hm), Option.getD_some]
  refine ⟨fun x => if x ∈ batch then writeSecrets b s password (st2 x) else st2 x, ?_,
    ⟨fun m hm c hc => ?_, fun m hm x hx => ?_, fun m hm x hx => ?_⟩, ?_, fun m hm => ?_⟩
  · rw [encryptAtRest, hst1, Option.bind_eq_bind, Option.bind_some, writeBatch_eq]
  · split at hc
    · rename_i hmb
      obtain ⟨c', hc', hsecret⟩ := hwrite m hmb
      obtain rfl := Option.some.inj (hc.symm.trans hc')
      exact hsecret
    · exact hA2.files m hm c hc
  · refine hA2.tokens m hm x ?_
    split at hx <;> exact hx
  · refine hA2.extracted m hm x ?_
    split at hx <;> exact hx
  · refine hfallback.imp id fun htok m hm => ?_
    simp only
    split <;> exact htok m hm
  · simp only [if_pos hm]
    exact hwrite m hm

theorem onBatch_of_not_mem {batch : List α} {task : Master Key Text → Option (Master Key Text)}
    {st st' : α → Master Key Text} (h : onBatch batch task st = some st') {m : α}
    (hm : m ∉ batch) : st' m = st m := by
  rw [onBatch] at h
  split at h
  · obtain rfl := Option.some.inj h
    exact if_neg hm
  · cases h

theorem setTokens_file (batch : List α) (st : α → Master Key Text) (m : α) :
    (batch.foldl (setToken g) st m).secretsEncryption = (st m).secretsEncryption := by
  induction batch generalizing st with
  | nil => rfl
  | cons h batch ih =>
    rw [List.foldl_cons, ih, setToken]
    cases (st h).kubeEncryptTokenExtracted with
    | none => rfl
    | some k =>
      simp only
      split <;> rfl

/-- A batch leaves the files of the other masters alone. -/
theorem encryptAtRest_file_of_not_mem {password : Key} {batch : List α}
    {st st' : α → Master Key Text} (h : encryptAtRest b s g password st batch = some st') {m : α}
    (hm : m ∉ batch) : (st' m).secretsEncryption = (st m).secretsEncryption := by
  obtain ⟨st1, hst1, hst'⟩ := Option.bind_eq_some_iff.mp h
  rw [onBatch_of_not_mem hst' hm, setTokens_file, onBatch_of_not_mem hst1 hm]

/-- Where there are no files and no facts yet, the batch writes the stored password. -/
theorem encryptAtRest_fresh {password : Key} {batch : List α} {st : α → Master Key Text}
    (hfresh : ∀ m ∈ batch, st m = ⟨none, none, none⟩) {st' : α → Master Key Text}
    (h : encryptAtRest b s g password st batch = some st') {m : α} (hm : m ∈ batch) :
    Holds b s k (st' m) ↔ password = k := by
  have hextract : onBatch batch (extractSecret b s) st = some st := by
    have htask : ∀ m ∈ batch, extractSecret b s (st m) = some (st m) := by
      intro m hm
      rw [hfresh m hm]
      rfl
    rw [onBatch_of_task htask]
    simp only [ite_self]
  have htokens : ∀ hs : List α, hs ⊆ batch → hs.foldl (setToken g) st = st := by
    intro hs hsub
    induction hs with
    | nil => rfl
    | cons x hs ih =>
      have hx : setToken g st x = st := by rw [setToken, hfresh x (hsub (by simp))]
      rw [List.foldl_cons, hx, ih fun y hy => hsub (List.mem_cons_of_mem x hy)]
  rw [encryptAtRest, hextract, Option.bind_eq_bind, Option.bind_some,
    htokens batch (List.Subset.refl batch), writeBatch_eq] at h
  obtain rfl := Option.some.inj h
  simp only [if_pos hm]
  rw [holds_writeSecrets, hfresh m hm]
  rfl

end Steps

section Plays
variable {b s} {k : Key} {g : MasterGroup α}

theorem play_file_of_not_mem {password : Key} {batches : List (List α)}
    {st st' : α → Master Key Text} (h : play b s g password batches st = some st') {m : α}
    (hm : m ∉ batches.flatten) : (st' m).secretsEncryption = (st m).secretsEncryption := by
  induction batches generalizing st with
  | nil =>
    obtain rfl : st = st' := Option.some.inj h
    rfl
  | cons batch batches ih =>
    rw [List.flatten_cons, List.mem_append, not_or] at hm
    obtain ⟨st1, hst1, hrest⟩ := Option.bind_eq_some_iff.mp (by simpa [play] using h)
    rw [ih hrest hm.2, encryptAtRest_file_of_not_mem hst1 hm.1]

/-- From a first batch that falls back on `k` or has a file, every batch ends with that key. -/
theorem play_agreed {password : Key} {batches : List (List α)} {st : α → Master Key Text}
    (hA : Agreed b s g k st) (hb : ∀ batch ∈ batches, batch ⊆ g.masters)
    (hk : password = k ∨ (∀ m ∈ g.masters, (st m).kubeEncryptToken = some k) ∨
      ∃ first ∈ batches.head?, ∃ m ∈ first, (st m).secretsEncryption.isSome) :
    ∃ st', play b s g password batches st = some st' ∧
      ∀ m ∈ batches.flatten, Holds b s k (st' m) := by
  induction batches generalizing st with
  | nil => exact ⟨st, rfl, fun m hm => nomatch hm⟩
  | cons batch batches ih =>
    obtain ⟨st1, hst1, hA1, hfallback, hholds⟩ :=
      encryptAtRest_agreed hA (hb batch (by simp)) (by simpa using hk)
    obtain ⟨st', hst', hrest⟩ := ih hA1 (fun x hx => hb x (List.mem_cons_of_mem batch hx))
      (hfallback.imp id Or.inl)
    refine ⟨st', ?_, fun m hm => ?_⟩
    · rw [play, List.foldlM_cons, hst1]
      exact hst'
    · by_cases hm' : m ∈ batches.flatten
      · exact hrest m hm'
      · rw [List.flatten_cons, List.mem_append] at hm
        obtain ⟨c, hc, hsecret⟩ := hholds m (hm.resolve_right hm')
        exact ⟨c, (play_file_of_not_mem hst' hm').trans hc, hsecret⟩

end Plays

/-- The masters that have a key have `k`, and at least one has. -/
structure OneKey (g : MasterGroup α) (files : α → Option (EncryptionConfig Text)) (k : Key) :
    Prop where
  same : ∀ m ∈ g.masters, ∀ c, files m = some c → secretValue b s c = some k
  some : ∃ m ∈ g.masters, (files m).isSome

/-- After the play every master holds the key that was there exactly when the stored password
is that key or some master of the first batch has it. -/
theorem mastersAgree_iff (g : MasterGroup α) (order : Batching g)
    (files : α → Option (EncryptionConfig Text)) (k password : Key) (hk : OneKey b s g files k) :
    (∃ st, play b s g password order.batches (found files) = some st ∧
      ∀ m ∈ g.masters, Holds b s k (st m)) ↔
      password = k ∨ ∃ first ∈ order.batches.head?, ∃ m ∈ first, (files m).isSome := by
  have hsub : ∀ batch ∈ order.batches, batch ⊆ g.masters := fun batch hbatch m hm =>
    order.all.mem_iff.mp (List.mem_flatten.mpr ⟨batch, hbatch, hm⟩)
  constructor
  · intro hex
    obtain ⟨st', hst', hholds⟩ := hex
    by_contra hno
    obtain ⟨hpassword, hfirst⟩ := not_or.mp hno
    obtain ⟨batches, hne, hall⟩ := order
    cases batches with
    | nil =>
      obtain ⟨m, hm, -⟩ := hk.some
      exact absurd (hall.mem_iff.mpr hm) (by simp)
    | cons batch batches =>
      obtain ⟨m, hm⟩ := List.exists_mem_of_ne_nil batch (hne batch (by simp))
      have hmg : m ∈ g.masters := hsub batch (by simp) hm
      -- The first batch writes the password, and no later one comes back to it.
      have hdisjoint : m ∉ batches.flatten := by
        have hnodup := hall.nodup_iff.mpr g.nodup
        rw [List.flatten_cons, List.nodup_append] at hnodup
        exact fun hmem => hnodup.2.2 m hm m hmem rfl
      have hfresh : ∀ x ∈ batch, found files x = (⟨none, none, none⟩ : Master Key Text) := by
        intro x hx
        have hnone : files x = none := by
          rw [Option.eq_none_iff_forall_ne_some]
          exact fun c hc => hfirst ⟨batch, rfl, x, hx, by rw [hc]; rfl⟩
        rw [found, hnone]
      obtain ⟨st1, hst1, hrest⟩ := Option.bind_eq_some_iff.mp (by simpa [play] using hst')
      obtain ⟨c, hc, hsecret⟩ := hholds m hmg
      rw [play_file_of_not_mem hrest hdisjoint] at hc
      exact hpassword ((encryptAtRest_fresh hfresh hst1 hm).mp ⟨c, hc, hsecret⟩)
  · intro hcond
    have hA : Agreed b s g k (found files : α → Master Key Text) :=
      ⟨hk.same, fun _ _ _ hx => (nomatch hx), fun _ _ _ hx => (nomatch hx)⟩
    obtain ⟨st', hst', hholds⟩ := play_agreed hA hsub (hcond.imp id Or.inr)
    exact ⟨st', hst', fun m hm => hholds m (order.all.mem_iff.mpr hm)⟩

end Tasks

/-- Base64 as it is on the keys of the example below. -/
def exampleBase64 : Base64 String String where
  encode := (Equiv.swap "k1" "azE=").trans (Equiv.swap "k2" "azI=")
  decode := ((Equiv.swap "k1" "azE=").trans (Equiv.swap "k2" "azI=")).symm
  decode_encode := Equiv.symm_apply_apply _

def twoMasters : MasterGroup String := ⟨["node1", "node2"], by decide⟩

def oneByOne : Batching twoMasters := ⟨[["node1"], ["node2"]], by decide, by decide⟩

/-- The second master has a key, the first has been set up anew. -/
def secondHasKey (h : String) : Option (EncryptionConfig String) :=
  if h = "node2" then some ⟨["secrets"], "aescbc", "azI="⟩ else none

theorem secondHasKey_oneKey : OneKey exampleBase64 {} twoMasters secondHasKey "k2" where
  same m hm c hc := by
    rw [secondHasKey] at hc
    split at hc
    · obtain rfl := Option.some.inj hc
      decide
    · cases hc
  some := ⟨"node2", by decide, by decide⟩

theorem secondHasKey_agree_iff : (∃ st, play exampleBase64 {} twoMasters "k1" oneByOne.batches
      (found secondHasKey) = some st ∧ ∀ m ∈ twoMasters.masters, Holds exampleBase64 {} "k2" (st m)) ↔
    "k1" = "k2" ∨ ∃ first ∈ oneByOne.batches.head?, ∃ m ∈ first, (secondHasKey m).isSome :=
  mastersAgree_iff exampleBase64 {} twoMasters oneByOne secondHasKey "k2" "k1" secondHasKey_oneKey

/-- One master at a time, the first writes the stored password over what the second had. -/
theorem firstMaster_loses_key : ¬ ∀ (g : MasterGroup String) (order : Batching g)
    (files : String → Option (EncryptionConfig String)) (k password : String),
    OneKey exampleBase64 {} g files k →
      ∃ st, play exampleBase64 {} g password order.batches (found files) = some st ∧
        ∀ m ∈ g.masters, Holds exampleBase64 {} k (st m) := by
  intro h
  obtain ⟨st, hst, hholds⟩ := h twoMasters oneByOne secondHasKey "k2" "k1" secondHasKey_oneKey
  obtain ⟨c, hc, hsecret⟩ := hholds "node1" (by decide)
  have hfile : (play exampleBase64 {} twoMasters "k1" oneByOne.batches (found secondHasKey)).map
      (fun st => ((st "node1").secretsEncryption).map EncryptionConfig.secret) =
        some (some "azE=") := by decide
  rw [hst, Option.map_some, hc, Option.map_some, Option.some.injEq, Option.some.injEq] at hfile
  rw [secretValue, hfile] at hsecret
  revert hsecret
  split <;> decide

end Kubespray.ControlPlane

import Kubespray.Etcd.Member
import Kubespray.Lib.Text
import Kubespray.Recover.OldCertificates

/-! The role recover_control_plane/etcd: the flags it takes from the text of the health check, and
what it does to the data directories and the members of the broken hosts. -/
namespace Kubespray.Recover
open Grep Etcd

/-- A host of groups['broken_etcd']. -/
structure BrokenHost where
  inventoryHostname : HostName
  etcdMemberName : String
  deriving DecidableEq

/-- The members of the cluster, with distinct ids. -/
@[ext]
structure Members where
  list : List Member
  ids_nodup : (list.map Member.id).Nodup

@[ext]
structure State where
  members : Members
  /-- The hosts that have an etcd_data_dir. -/
  dataDirs : HostName → Bool
  /-- etcd_cert_dir of the first etcd host. -/
  certDir : CertDir

/-- What the commands of the role answer, and how they end. -/
structure Surroundings where
  /-- What `etcdctl endpoint health` writes to stderr. -/
  stderr : List Char
  dataDirRemoved : HostName → Bool
  /-- The rm went well, or there was no such file. -/
  certificatesDeleted : HostName → Bool
  membersListed : Bool
  memberRemoved : String → Bool
  /-- The only member after the restoration of a snapshot, on the first etcd host. -/
  restored : Option (HostName × Member)

section Facts

/-- Set healthy fact: it holds where the text begins with the error. -/
def healthy (stderr : List Char) : Bool :=
  matchPrefix (literal "Error: unhealthy cluster".toList) stderr

/-- The lines that match `.*word.*`. -/
def linesWith (word : String) (stderr : List Char) : List (List Char) :=
  (splitlines stderr).filter (search (literal word.toList))

/-- Set has_quorum fact. -/
def hasQuorum (stderr : List Char) : Bool :=
  (linesWith "is healthy" stderr).length ≥ (linesWith "is unhealthy" stderr).length

end Facts

section Tasks
variable (e : Surroundings)

/-- `item[1].replace(' ','').split(',')` -/
def columns (line : String) : List (List Char) :=
  splitChar ',' (line.toList.filter (· ≠ ' '))

def nameColumn (line : String) : Option String := (columns line)[2]?.map String.ofList

/-- recover_lost_quorum.yml -/
def recoverLostQuorum (st : State) : Option State :=
  e.restored.map fun (host, m) =>
    { st with members := ⟨[m], by simp⟩, dataDirs := fun x => if x = host then true else st.dataDirs x }

/-- Remove etcd data dir; errors are ignored. -/
def removeDataDirs (broken : List BrokenHost) (st : State) : State :=
  broken.foldl (fun st b => if e.dataDirRemoved b.inventoryHostname then
    { st with dataDirs := fun x => if x = b.inventoryHostname then false else st.dataDirs x } else st) st

/-- Delete old certificates, with the task that fails where one of them could not be deleted. -/
def deleteCertificates (broken : List BrokenHost) (st : State) : Option State :=
  let hosts := broken.map BrokenHost.inventoryHostname
  if hosts.all e.certificatesDeleted then
    some { st with certDir := deleteOldCertificates hosts st.certDir }
  else none

/-- `etcdctl member remove` -/
def memberRemove (ms : Members) (id : String) : Option Members :=
  if e.memberRemoved id && id ∈ ms.list.map (·.id.text) then
    some ⟨ms.list.filter (·.id.text ≠ id), (List.filter_sublist.map Member.id).nodup ms.ids_nodup⟩
  else none

/-- One item of Remove broken cluster members. -/
def removeItem (ms : Members) (item : BrokenHost × String) : Option Members :=
  match nameColumn item.2 with
  | none => none
  | some name =>
    if item.1.etcdMemberName = name then
      memberRemove e ms (String.ofList ((columns item.2).headD []))
    else some ms

/-- Get etcd cluster members, and Remove broken cluster members. -/
def removeBrokenMembers (broken : List BrokenHost) (st : State) : Option State :=
  if e.membersListed then
    let items := broken.flatMap fun b => (memberList st.members.list).map (b, ·)
    (items.foldlM (removeItem e) st.members).map fun ms => { st with members := ms }
  else none

/-- The role on the first etcd host; none where it fails. -/
def recoverEtcd (broken : List BrokenHost) (st : State) : Option State :=
  if broken = [] then some st
  else do
    let st ← if hasQuorum e.stderr then some (removeDataDirs e broken st) else recoverLostQuorum e st
    let st ← deleteCertificates e broken st
    if !healthy e.stderr && hasQuorum e.stderr then removeBrokenMembers e broken st else some st

end Tasks

section Removal
variable (e : Surroundings)

/-- The name of the host stands in the name column of the member's line. -/
def named (b : BrokenHost) (m : Member) : Bool := nameColumn m.line = some b.etcdMemberName

theorem columns_line (m : Member) : ∃ status name rest,
    columns m.line = m.id.text.toList :: status :: name :: rest := by
  have hblank : ∀ c ∈ m.id.text.toList, ¬ c = ' ' := fun c hc heq =>
    m.id.not_mem_of_not_alphanum ' ' (by decide) (heq ▸ hc)
  have hcomma := m.id.not_mem_of_not_alphanum ',' (by decide)
  have hline : m.line.toList.filter (· ≠ ' ') = m.id.text.toList ++ ',' ::
      (m.status.toList.filter (· ≠ ' ') ++ ',' :: (m.name.toList.filter (· ≠ ' ') ++ ',' ::
        (m.peerURL.text ++ ", " ++ (m.clientURL.map Url.text).getD "" ++ ", " ++
          toString m.learner).toList.filter (· ≠ ' '))) := by
    simpa [Member.line] using hblank
  rw [columns, hline, splitChar_append ',' _ _ hcomma, splitChar_append_sep, splitChar_append_sep]
  obtain ⟨x, xs, hx⟩ := List.exists_cons_of_ne_nil
    (splitChar_ne_nil ',' (m.status.toList.filter (· ≠ ' ')))
  obtain ⟨y, ys, hy⟩ := List.exists_cons_of_ne_nil
    (splitChar_ne_nil ',' (m.name.toList.filter (· ≠ ' ')))
  rw [hx, hy]
  cases xs with
  | nil => exact ⟨x, y, _, rfl⟩
  | cons z zs => exact ⟨x, z, _, rfl⟩

theorem removeItem_line (ms : Members) (b : BrokenHost) (m : Member) :
    removeItem e ms (b, m.line) = if named b m then memberRemove e ms m.id.text else some ms := by
  obtain ⟨status, name, rest, hcolumns⟩ := columns_line m
  have hname : nameColumn m.line = some (String.ofList name) := by rw [nameColumn, hcolumns]; rfl
  rw [removeItem, named, hname, hcolumns]
  by_cases hb : b.etcdMemberName = String.ofList name
  · simp [hb]
  · simp [hb, Ne.symm hb]

/-- The ids that are handed to `member remove`, in turn. -/
def idsToRemove (broken : List BrokenHost) (ms : Members) : List String :=
  broken.flatMap fun b => (ms.list.filter (named b)).map (·.id.text)

theorem foldlM_removeItem (broken : List BrokenHost) (listed : List Member) (ms : Members) :
    (broken.flatMap fun b => (memberList listed).map (b, ·)).foldlM (removeItem e) ms =
      (broken.flatMap fun b => (listed.filter (named b)).map (·.id.text)).foldlM (memberRemove e) ms := by
  induction broken generalizing ms with
  | nil => rfl
  | cons b broken ih =>
    have hhost : ((memberList listed).map (b, ·)).foldlM (removeItem e) ms =
        ((listed.filter (named b)).map (·.id.text)).foldlM (memberRemove e) ms := by
      rw [memberList, List.map_map, List.foldlM_map, List.foldlM_map, List.foldlM_filter]
      simp only [Function.comp_apply, removeItem_line]
      rfl
    rw [List.flatMap_cons, List.flatMap_cons, List.foldlM_append, List.foldlM_append, hhost]
    exact congrArg _ (funext ih)

theorem mem_ids_without_iff (members : List Member) (id x : String) :
    x ∈ (members.filter (·.id.text ≠ id)).map (·.id.text) ↔ x ∈ members.map (·.id.text) ∧ x ≠ id := by
  simp only [List.mem_map, List.mem_filter, decide_eq_true_iff]
  constructor
  · rintro ⟨m, ⟨hm, hne⟩, rfl⟩
    exact ⟨⟨m, hm, rfl⟩, hne⟩
  · rintro ⟨⟨m, hm, rfl⟩, hne⟩
    exact ⟨m, ⟨hm, hne⟩, rfl⟩

theorem filter_without (members : List Member) (id : String) (ids : List String) :
    (members.filter (·.id.text ≠ id)).filter (·.id.text ∉ ids) =
      members.filter (·.id.text ∉ id :: ids) := by
  rw [List.filter_filter]
  refine List.filter_congr fun m _ => ?_
  simp [Bool.and_comm]

/-- Some members can be removed one after the other where no one is to be removed twice. -/
theorem foldlM_memberRemove_iff (ids : List String) (ms ms' : Members) :
    ids.foldlM (memberRemove e) ms = some ms' ↔
      (ids.Nodup ∧ ∀ id ∈ ids, e.memberRemoved id = true ∧ id ∈ ms.list.map (·.id.text)) ∧
        ms'.list = ms.list.filter (·.id.text ∉ ids) := by
  induction ids generalizing ms with
  | nil =>
    have hsame : ms = ms' ↔ ms'.list = ms.list := by rw [Members.ext_iff, eq_comm]
    simp [hsame]
  | cons id ids ih =>
    rw [List.foldlM_cons, memberRemove]
    by_cases hid : e.memberRemoved id = true ∧ id ∈ ms.list.map (·.id.text)
    · rw [if_pos (by simpa using hid)]
      refine (ih _).trans ?_
      have hrest := mem_ids_without_iff ms.list id
      rw [filter_without, List.nodup_cons, List.forall_mem_cons]
      refine and_congr_left fun _ => ?_
      constructor
      · rintro ⟨hnd, hall⟩
        exact ⟨⟨fun hmem => ((hrest id).mp (hall id hmem).2).2 rfl, hnd⟩, hid,
          fun x hx => ⟨(hall x hx).1, ((hrest x).mp (hall x hx).2).1⟩⟩
      · rintro ⟨⟨hno, hnd⟩, -, hall⟩
        exact ⟨hnd, fun x hx => ⟨(hall x hx).1,
          (hrest x).mpr ⟨(hall x hx).2, fun heq => hno (heq ▸ hx)⟩⟩⟩
    · rw [if_neg (by simpa using hid)]
      constructor
      · intro h
        cases h
      · exact fun h => absurd (h.1.2 id (by simp)) hid

/-- The members that are left when those of the broken hosts are gone. -/
def remaining (broken : List BrokenHost) (ms : Members) : List Member :=
  ms.list.filter fun m => broken.all fun b => !named b m

theorem not_mem_idsToRemove_iff (broken : List BrokenHost) (ms : Members) (m : Member)
    (hm : m ∈ ms.list) :
    m.id.text ∉ idsToRemove broken ms ↔ ∀ b ∈ broken, named b m = false := by
  simp only [idsToRemove, List.mem_flatMap, List.mem_map, List.mem_filter, not_exists, not_and]
  constructor
  · intro h b hb
    by_contra hn
    exact h b hb m ⟨hm, by simpa using hn⟩ rfl
  · rintro h b hb m' ⟨hm', hn⟩ htext
    rw [List.inj_on_of_nodup_map ms.ids_nodup hm' hm (MemberId.eq_of_text htext), h b hb] at hn
    cases hn

theorem filter_idsToRemove (broken : List BrokenHost) (ms : Members) :
    ms.list.filter (·.id.text ∉ idsToRemove broken ms) = remaining broken ms := by
  refine List.filter_congr fun m hm => ?_
  rw [Bool.eq_iff_iff, decide_eq_true_iff, not_mem_idsToRemove_iff broken ms m hm]
  simp

/-- The members task goes well when the commands do and no id is to be removed twice. -/
theorem removeBrokenMembers_iff (broken : List BrokenHost) (st st' : State) :
    removeBrokenMembers e broken st = some st' ↔
      (e.membersListed = true ∧ (idsToRemove broken st.members).Nodup ∧
        ∀ id ∈ idsToRemove broken st.members, e.memberRemoved id = true) ∧
      st'.members.list = remaining broken st.members ∧ st'.dataDirs = st.dataDirs ∧
        st'.certDir = st.certDir := by
  rw [removeBrokenMembers]
  by_cases hlist : e.membersListed = true
  · have hids : ∀ id ∈ idsToRemove broken st.members, id ∈ st.members.list.map (·.id.text) := by
      intro id hid
      obtain ⟨b, -, hid⟩ := List.mem_flatMap.mp hid
      obtain ⟨m, hm, rfl⟩ := List.mem_map.mp hid
      exact List.mem_map_of_mem (List.mem_of_mem_filter hm)
    have hms : ∀ ms, (broken.flatMap fun b => (memberList st.members.list).map (b, ·)).foldlM
        (removeItem e) st.members = some ms ↔ ((idsToRemove broken st.members).Nodup ∧
          ∀ id ∈ idsToRemove broken st.members, e.memberRemoved id = true) ∧
            ms.list = remaining broken st.members := by
      intro ms
      rw [foldlM_removeItem, ← filter_idsToRemove]
      refine (foldlM_memberRemove_iff e _ st.members ms).trans ?_
      refine and_congr_left fun _ => and_congr_right fun _ => forall₂_congr fun id hid => ?_
      exact and_iff_left (hids id hid)
    rw [if_pos hlist, Option.map_eq_some_iff]
    constructor
    · rintro ⟨ms, hfold, rfl⟩
      obtain ⟨hgo, hleft⟩ := (hms ms).mp hfold
      exact ⟨⟨hlist, hgo⟩, hleft, rfl, rfl⟩
    · rintro ⟨⟨-, hgo⟩, hleft, hdirs, hcerts⟩
      exact ⟨st'.members, (hms _).mpr ⟨hgo, hleft⟩, State.ext rfl hdirs.symm hcerts.symm⟩
  · rw [if_neg hlist]
    simp [hlist]

end Removal

section Recovery
variable (e : Surroundings) (broken : List BrokenHost) (st : State)

theorem removeDataDirs_spec : (removeDataDirs e broken st).members = st.members ∧
    (removeDataDirs e broken st).certDir = st.certDir ∧ ∀ h, (removeDataDirs e broken st).dataDirs h =
      (st.dataDirs h && !(h ∈ broken.map BrokenHost.inventoryHostname && e.dataDirRemoved h)) := by
  induction broken generalizing st with
  | nil => simp [removeDataDirs]
  | cons b broken ih =>
    have hstep : removeDataDirs e (b :: broken) st = removeDataDirs e broken
        (if e.dataDirRemoved b.inventoryHostname then
          { st with dataDirs := fun x => if x = b.inventoryHostname then false else st.dataDirs x }
        else st) := rfl
    rw [hstep]
    obtain ⟨hmembers, hcerts, hdirs⟩ := ih (if e.dataDirRemoved b.inventoryHostname then
      { st with dataDirs := fun x => if x = b.inventoryHostname then false else st.dataDirs x }
      else st)
    refine ⟨hmembers.trans (by split <;> rfl), hcerts.trans (by split <;> rfl), fun h => ?_⟩
    rw [hdirs h]
    by_cases hh : h = b.inventoryHostname
    · subst hh
      cases hr : e.dataDirRemoved b.inventoryHostname <;> simp
    · cases hr : e.dataDirRemoved b.inventoryHostname <;> simp [hh]

/-- The commands that the role insists on go well: on the quorum path it then completes. -/
def GoesThrough : Prop :=
  (∀ b ∈ broken, e.certificatesDeleted b.inventoryHostname = true) ∧
  (healthy e.stderr = false → e.membersListed = true ∧ (idsToRemove broken st.members).Nodup ∧
    ∀ id ∈ idsToRemove broken st.members, e.memberRemoved id = true)

/-- What the quorum path leaves. -/
theorem recoverEtcd_quorum_iff (hne : broken ≠ []) (hq : hasQuorum e.stderr = true) (st' : State) :
    recoverEtcd e broken st = some st' ↔ GoesThrough e broken st ∧
      st'.members.list = (if healthy e.stderr then st.members.list else remaining broken st.members) ∧
      st'.dataDirs = (removeDataDirs e broken st).dataDirs ∧
      st'.certDir = deleteOldCertificates (broken.map BrokenHost.inventoryHostname) st.certDir := by
  obtain ⟨hmembers, hcerts, -⟩ := removeDataDirs_spec e broken st
  rw [recoverEtcd, if_neg hne, if_pos hq, hq, Bool.and_true, GoesThrough]
  change (deleteCertificates e broken (removeDataDirs e broken st)).bind _ = _ ↔ _
  by_cases hdel : ∀ b ∈ broken, e.certificatesDeleted b.inventoryHostname = true
  · have hall : (broken.map BrokenHost.inventoryHostname).all e.certificatesDeleted = true := by
      simpa using hdel
    rw [deleteCertificates, if_pos hall, Option.bind_some]
    cases hhealthy : healthy e.stderr with
    | true =>
      constructor
      · intro h
        obtain rfl := Option.some.inj h
        exact ⟨⟨hdel, nofun⟩, congrArg Members.list hmembers, rfl,
          congrArg (deleteOldCertificates _) hcerts⟩
      · rintro ⟨-, hlist, hdirs, hfiles⟩
        exact congrArg some (State.ext (hmembers.trans (Members.ext hlist.symm)) hdirs.symm
          ((congrArg (deleteOldCertificates _) hcerts).trans hfiles.symm))
    | false =>
      refine (removeBrokenMembers_iff e broken _ st').trans ?_
      simp only [hmembers, hcerts]
      exact ⟨fun h => ⟨⟨hdel, fun _ => h.1⟩, h.2⟩, fun h => ⟨h.1.2 trivial, h.2⟩⟩
  · have hall : ¬ (broken.map BrokenHost.inventoryHostname).all e.certificatesDeleted = true := by
      simpa using hdel
    rw [deleteCertificates, if_neg hall]
    simp [hdel]

theorem exists_of_goesThrough (hne : broken ≠ []) (hq : hasQuorum e.stderr = true)
    (h : GoesThrough e broken st) : ∃ st', recoverEtcd e broken st = some st' := by
  refine ⟨⟨if healthy e.stderr then st.members else ⟨remaining broken st.members, ?_⟩,
    (removeDataDirs e broken st).dataDirs, _⟩,
    (recoverEtcd_quorum_iff e broken st hne hq _).mpr ⟨h, ?_, rfl, rfl⟩⟩
  · exact (List.filter_sublist.map Member.id).nodup st.members.ids_nodup
  · split <;> rfl

/-- Where a broken host is listed, its member has to go. -/
theorem remaining_ne_list (ms : Members) (hne : broken ≠ [])
    (honce : ∀ b ∈ broken, ∃ m, ms.list.filter (named b) = [m]) : remaining broken ms ≠ ms.list := by
  intro hsame
  obtain ⟨b, rest, rfl⟩ := List.exists_cons_of_ne_nil hne
  obtain ⟨m, hm⟩ := honce b (by simp)
  have hmem : m ∈ ms.list.filter (named b) := by simp [hm]
  obtain ⟨hin, hnamed⟩ := List.mem_filter.mp hmem
  rw [← hsame, remaining, List.mem_filter] at hin
  simp [hnamed] at hin

/-- The quorum path is taken only where an endpoint is reported healthy, and a run that takes it
and completes leaves the members that are not broken, and no data directory of a broken host. -/
structure RemovesBroken : Prop where
  reported : hasQuorum e.stderr = true → linesWith "is healthy" e.stderr ≠ []
  members : hasQuorum e.stderr = true → ∀ st', recoverEtcd e broken st = some st' →
    st'.members.list = remaining broken st.members
  dataDirs : hasQuorum e.stderr = true → ∀ st', recoverEtcd e broken st = some st' → ∀ h,
    st'.dataDirs h = (st.dataDirs h && h ∉ broken.map BrokenHost.inventoryHostname)

theorem removesBroken_iff (hne : broken ≠ [])
    (honce : ∀ b ∈ broken, ∃ m, st.members.list.filter (named b) = [m]) :
    RemovesBroken e broken st ↔
      (linesWith "is healthy" e.stderr).length < (linesWith "is unhealthy" e.stderr).length ∨
      (linesWith "is healthy" e.stderr ≠ [] ∧ (GoesThrough e broken st → healthy e.stderr = false ∧
        ∀ b ∈ broken, e.dataDirRemoved b.inventoryHostname = true ∨
          st.dataDirs b.inventoryHostname = false)) := by
  obtain ⟨-, -, hdirs⟩ := removeDataDirs_spec e broken st
  have hquorum : hasQuorum e.stderr = true ↔
      ¬ (linesWith "is healthy" e.stderr).length < (linesWith "is unhealthy" e.stderr).length := by
    rw [hasQuorum, decide_eq_true_iff, not_lt]
  by_cases hq : hasQuorum e.stderr = true
  · rw [or_iff_right (hquorum.mp hq)]
    constructor
    · intro h
      refine ⟨h.reported hq, fun hgo => ?_⟩
      obtain ⟨st', hst'⟩ := exists_of_goesThrough e broken st hne hq hgo
      obtain ⟨-, hlist, hdirs', -⟩ := (recoverEtcd_quorum_iff e broken st hne hq st').mp hst'
      constructor
      · by_contra hhealthy
        rw [if_pos (by simpa using hhealthy), h.members hq st' hst'] at hlist
        exact remaining_ne_list broken st.members hne honce hlist
      · intro b hb
        have hb' := List.mem_map_of_mem (f := BrokenHost.inventoryHostname) hb
        have hdir := h.dataDirs hq st' hst' b.inventoryHostname
        rw [hdirs', hdirs] at hdir
        cases hthere : st.dataDirs b.inventoryHostname with
        | false => exact .inr rfl
        | true => exact .inl (by simpa [hb', hthere] using hdir)
    · intro h
      refine ⟨fun _ => h.1, fun _ st' hst' => ?_, fun _ st' hst' host => ?_⟩
      · obtain ⟨hgo, hlist, -⟩ := (recoverEtcd_quorum_iff e broken st hne hq st').mp hst'
        rw [hlist, (h.2 hgo).1]
        rfl
      · obtain ⟨hgo, -, hdirs', -⟩ := (recoverEtcd_quorum_iff e broken st hne hq st').mp hst'
        rw [hdirs', hdirs]
        by_cases hhost : host ∈ broken.map BrokenHost.inventoryHostname
        · obtain ⟨b, hb, rfl⟩ := List.mem_map.mp hhost
          cases (h.2 hgo).2 b hb with
          | inl hremoved => simp only [hremoved, Bool.and_true, decide_not]
          | inr hnone => simp [hnone]
        · simp [hhost]
  · rw [or_iff_left_of_imp (fun _ => by_contra fun hlt => hq (hquorum.mpr hlt))]
    exact ⟨fun _ => by_contra fun hlt => hq (hquorum.mpr hlt),
      fun _ => ⟨fun h => absurd h hq, fun h => absurd h hq, fun h => absurd h hq⟩⟩

end Recovery

def node3 : BrokenHost := ⟨⟨"node3", by decide⟩, "etcd3"⟩

def exampleMember (id : MemberId) (name : String) (last : UInt8) : Member where
  id := id
  status := "started"
  name := name
  peerURL := ⟨.ofOctets 10 0 0 last, 2380⟩
  clientURL := some ⟨.ofOctets 10 0 0 last, 2379⟩
  learner := false

def thirdMember : Member := exampleMember ⟨"91bc3c398fb3c146", by decide, by decide⟩ "etcd3" 3

/-- Two members, the second of them broken. -/
def exampleState : State where
  members := ⟨[exampleMember ⟨"8e9e05c52164694d", by decide, by decide⟩ "etcd1" 1, thirdMember],
    by decide⟩
  dataDirs := fun _ => true
  certDir := ∅

/-- All commands go well, and the health check has this to say. -/
def answering (stderr : String) : Surroundings where
  stderr := stderr.toList
  dataDirRemoved := fun _ => true
  certificatesDeleted := fun _ => true
  membersListed := true
  memberRemoved := fun _ => true
  restored := none

theorem thirdMember_listed : ∀ b ∈ [node3], ∃ m, exampleState.members.list.filter (named b) = [m] := by
  intro b hb
  rw [List.mem_singleton.mp hb]
  exact ⟨thirdMember, by decide⟩

theorem node3_removesBroken_iff : RemovesBroken (answering "") [node3] exampleState ↔
    (linesWith "is healthy" []).length < (linesWith "is unhealthy" []).length ∨
    (linesWith "is healthy" [] ≠ [] ∧ (GoesThrough (answering "") [node3] exampleState →
      healthy [] = false ∧ ∀ b ∈ [node3], (answering "").dataDirRemoved b.inventoryHostname = true ∨
        exampleState.dataDirs b.inventoryHostname = false)) :=
  removesBroken_iff (answering "") [node3] exampleState (by simp) thirdMember_listed

/-- No endpoint is reported at all, and no member is removed. -/
theorem unhealthy_cluster_has_quorum : ¬ ∀ (e : Surroundings) (broken : List BrokenHost) (st : State),
    broken ≠ [] → (∀ b ∈ broken, ∃ m, st.members.list.filter (named b) = [m]) →
      RemovesBroken e broken st := by
  intro h
  have hreported := (h (answering "Error: unhealthy cluster") [node3] exampleState (by simp)
    thirdMember_listed).reported (by decide)
  exact hreported (by decide)

end Kubespray.Recover

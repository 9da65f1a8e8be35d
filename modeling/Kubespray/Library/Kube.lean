import Kubespray.Lib.Text

/-! library/kube.py: the module that keeps the resources of manifest files present or absent by
running kubectl. -/
namespace Kubespray.Library

inductive KubeState where
  | present
  | absent
  | latest
  | reloaded
  | stopped
  deriving DecidableEq

/-- The parameters of the module; the file names are stripped. -/
structure Params where
  name : Option String := none
  filename : List String := []
  «namespace» : Option String := none
  resource : Option String := none
  label : Option String := none
  server : Option String := none
  kubectl : Option String := none
  force : Bool := false
  wait : Bool := false
  all : Bool := false
  logLevel : Int := 0
  state : KubeState := .present
  recursive : Bool := false

/-- What run_command returns. -/
structure Output where
  rc : Int
  out : String
  err : String

/-- A part of the module: it ends with a result or in fail_json, and leaves a cluster. -/
abbrev Step (Cluster α : Type) := Cluster → Except String α × Cluster

def Step.done {Cluster α : Type} (a : α) : Step Cluster α := fun c => (.ok a, c)

def Step.andThen {Cluster α β : Type} (x : Step Cluster α) (f : α → Step Cluster β) :
    Step Cluster β := fun c =>
  match x c with
  | (.error e, c') => (.error e, c')
  | (.ok a, c') => f a c'

/-- The option with its value, where that is set and not empty. -/
def option (flag : String) : Option String → List String
  | none => []
  | some v => if v = "" then [] else [flag ++ v]

/-- The flag alone, where it is set. -/
def flag (text : String) (set : Bool) : List String := if set then [text] else []

section Manager
variable {Cluster : Type} (kubectl : List String → Cluster → Output × Cluster) (binPath : String)
  (p : Params)

def baseCmd : List String :=
  [p.kubectl.getD binPath] ++ option "--server=" p.server ++
    flag ("--v=" ++ toString p.logLevel) (p.logLevel ≠ 0) ++ option "--namespace=" p.namespace

/-- `_execute` -/
def execute (cmd : List String) : Step Cluster (List (List Char)) := fun c =>
  let args := baseCmd binPath p ++ cmd
  let (o, c') := kubectl args c
  if o.rc ≠ 0 then
    (.error ("error running kubectl (" ++ " ".intercalate args ++ ") command (rc=" ++
      toString o.rc ++ "), out='" ++ o.out ++ "', err='" ++ o.err ++ "'"), c')
  else (.ok (splitlines o.out.toList), c')

/-- `_execute_nofail` -/
def executeNofail (cmd : List String) : Step Cluster (Option (List (List Char))) := fun c =>
  let (o, c') := kubectl (baseCmd binPath p ++ cmd) c
  (.ok (if o.rc ≠ 0 then none else some (splitlines o.out.toList)), c')

def filenameArg : String := "--filename=" ++ ",".intercalate p.filename

def recursiveArg : List String := flag "--recursive=True" p.recursive

/-- What `exists`, `delete` and `stop` are about: the files, or the named resources with the flags
for them. -/
def target (noTarget : String) (resourceFlags : List String) : Except String (List String) :=
  if p.filename ≠ [] then .ok ([filenameArg p] ++ recursiveArg p)
  else match option "" p.resource with
    | [] => .error noTarget
    | resource =>
      .ok (resource ++ option "" p.name ++ option "--selector=" p.label ++ resourceFlags)

def existsCmd : Except String (List String) := do
  let what ← target p "resource required without filename" (flag "--all-namespaces" p.all)
  .ok (["get"] ++ what ++ ["--no-headers"])

/-- `apply`, with the flags of create and replace. -/
def applyCmd (noFile : String) (force : Bool) : Except String (List String) :=
  if p.filename = [] then .error noFile
  else .ok (["apply"] ++ flag "--force" force ++ flag "--wait" p.wait ++ recursiveArg p ++
    [filenameArg p])

def deleteCmd : Except String (List String) := do
  let what ← target p "resource required to delete without filename"
    (flag "--all" p.all ++ flag "--ignore-not-found" p.force ++ recursiveArg p)
  .ok (["delete"] ++ what)

def stopCmd : Except String (List String) := do
  let what ← target p "resource required to stop without filename"
    (flag "--all" p.all ++ flag "--ignore-not-found" p.force)
  .ok (["stop"] ++ what)

/-- A command that is put together first; that may end in fail_json. -/
def withCmd {α : Type} (cmd : Except String (List String)) (f : List String → Step Cluster α) :
    Step Cluster α := fun c =>
  match cmd with
  | .error e => (.error e, c)
  | .ok cmd => f cmd c

def «exists» : Step Cluster Bool :=
  (withCmd (existsCmd p) (executeNofail kubectl binPath p)).andThen fun result =>
    .done (result.any fun lines => lines ≠ [])

def create (check force : Bool) : Step Cluster (List (List Char)) :=
  (if check then «exists» kubectl binPath p else .done false).andThen fun found =>
    if found then .done [] else
      withCmd (applyCmd p "filename required to create" force) (execute kubectl binPath p)

def replace (force : Bool) : Step Cluster (List (List Char)) :=
  withCmd (applyCmd p "filename required to reload" force) (execute kubectl binPath p)

/-- Nothing to do where nothing is found, unless forced. -/
def unlessMissing (cmd : Except String (List String)) : Step Cluster (List (List Char)) :=
  (if p.force then .done true else «exists» kubectl binPath p).andThen fun found =>
    if found then withCmd cmd (execute kubectl binPath p) else .done []

def delete : Step Cluster (List (List Char)) := unlessMissing kubectl binPath p (deleteCmd p)

def stop : Step Cluster (List (List Char)) := unlessMissing kubectl binPath p (stopCmd p)

def main : Step Cluster (List (List Char)) :=
  match p.state with
  | .present => create kubectl binPath p true true
  | .absent => delete kubectl binPath p
  | .reloaded => replace kubectl binPath p true
  | .stopped => stop kubectl binPath p
  | .latest => replace kubectl binPath p true

end Manager

theorem Step.andThen_ok {Cluster α β : Type} {x : Step Cluster α} {f : α → Step Cluster β}
    {c c' : Cluster} {a : α} (h : x c = (.ok a, c')) : x.andThen f c = f a c' := by
  rw [Step.andThen, h]

section Files
variable {Cluster : Type} (kubectl : List String → Cluster → Output × Cluster) (binPath : String)
  (p : Params)

/-- The commands on files. -/
def getFiles : List String := ["get"] ++ ([filenameArg p] ++ recursiveArg p) ++ ["--no-headers"]

def applyFiles : List String :=
  ["apply"] ++ flag "--force" true ++ flag "--wait" p.wait ++ recursiveArg p ++ [filenameArg p]

def deleteFiles : List String := ["delete"] ++ ([filenameArg p] ++ recursiveArg p)

/-- `get` ends well and prints something. -/
def Reports (c : Cluster) : Prop :=
  (kubectl (baseCmd binPath p ++ getFiles p) c).1.rc = 0 ∧
    (kubectl (baseCmd binPath p ++ getFiles p) c).1.out ≠ ""

instance (c : Cluster) : Decidable (Reports kubectl binPath p c) := inferInstanceAs (Decidable (_ ∧ _))

variable {p} (hfiles : p.filename ≠ [])
include hfiles

theorem exists_files (c : Cluster) : «exists» kubectl binPath p c =
    (.ok (decide (Reports kubectl binPath p c)), (kubectl (baseCmd binPath p ++ getFiles p) c).2) := by
  have hcmd : existsCmd p = .ok (getFiles p) := by
    rw [existsCmd, target, if_pos hfiles]
    rfl
  rw [«exists», hcmd]
  change (Except.ok _, _) = _
  refine congrArg₂ Prod.mk (congrArg Except.ok ?_) rfl
  by_cases hrc : (kubectl (baseCmd binPath p ++ getFiles p) c).1.rc = 0
  · simp [Reports, hrc, splitlines_eq_nil_iff]
  · simp [Reports, hrc]

theorem create_files (c : Cluster) : create kubectl binPath p true true c =
    if Reports kubectl binPath p c then (.ok [], (kubectl (baseCmd binPath p ++ getFiles p) c).2)
    else execute kubectl binPath p (applyFiles p) (kubectl (baseCmd binPath p ++ getFiles p) c).2 := by
  rw [create, if_pos rfl, Step.andThen_ok (exists_files kubectl binPath hfiles c)]
  by_cases hr : Reports kubectl binPath p c
  · simp [hr, Step.done]
  · simp [hr, withCmd, applyCmd, hfiles, applyFiles]

theorem delete_files (c : Cluster) : delete kubectl binPath p c =
    if p.force then execute kubectl binPath p (deleteFiles p) c
    else if Reports kubectl binPath p c then
      execute kubectl binPath p (deleteFiles p) (kubectl (baseCmd binPath p ++ getFiles p) c).2
    else (.ok [], (kubectl (baseCmd binPath p ++ getFiles p) c).2) := by
  have hcmd : deleteCmd p = .ok (deleteFiles p) := by
    rw [deleteCmd, target, if_pos hfiles]
    rfl
  rw [delete, unlessMissing, hcmd]
  by_cases hforce : p.force = true
  · rw [if_pos hforce, if_pos hforce]
    rfl
  · rw [if_neg hforce, if_neg hforce, Step.andThen_ok (exists_files kubectl binPath hfiles c)]
    by_cases hr : Reports kubectl binPath p c
    · simp [hr, withCmd]
    · simp [hr, Step.done]

omit hfiles in
theorem execute_ok {cmd : List String} {c c' : Cluster} {lines : List (List Char)}
    (h : execute kubectl binPath p cmd c = (.ok lines, c')) :
    (kubectl (baseCmd binPath p ++ cmd) c).1.rc = 0 ∧ (kubectl (baseCmd binPath p ++ cmd) c).2 = c' := by
  cases hk : kubectl (baseCmd binPath p ++ cmd) c with
  | mk o c1 =>
    simp only [execute, hk] at h
    split at h
    · cases (Prod.mk.inj h).1
    · rename_i hrc
      exact ⟨by simpa using hrc, (Prod.mk.inj h).2⟩

end Files

section Reaching
variable {Resource : Type} (kubectl : List String → List Resource → Output × List Resource)
  (binPath : String) (p : Params) (resources : List Resource)

/-- What kubectl is known to do with the files, for the resources that they define: `get` only
reads, and fails where one is missing; `apply` goes well only if all are there in the end;
`delete` removes those that are there, and fails where one is missing. -/
structure Documented : Prop where
  get_reads : ∀ c, (kubectl (baseCmd binPath p ++ getFiles p) c).2 = c
  get_all : ∀ c, (kubectl (baseCmd binPath p ++ getFiles p) c).1.rc = 0 → ∀ r ∈ resources, r ∈ c
  apply_all : ∀ c, (kubectl (baseCmd binPath p ++ applyFiles p) c).1.rc = 0 →
    ∀ r ∈ resources, r ∈ (kubectl (baseCmd binPath p ++ applyFiles p) c).2
  delete_all : ∀ c, (kubectl (baseCmd binPath p ++ deleteFiles p) c).1.rc = 0 →
    ∀ r ∈ resources, r ∈ c ∧ r ∉ (kubectl (baseCmd binPath p ++ deleteFiles p) c).2

/-- A run of the module that does not fail leaves the state it was asked for. -/
structure ReachesState (c : List Resource) : Prop where
  absent : p.state = .absent → ∀ lines c', main kubectl binPath p c = (.ok lines, c') →
    ∀ r ∈ resources, r ∉ c'
  present : p.state = .present → ∀ lines c', main kubectl binPath p c = (.ok lines, c') →
    ∀ r ∈ resources, r ∈ c'

variable {kubectl binPath p resources}

theorem present_of_create (hk : Documented kubectl binPath p resources) (hfiles : p.filename ≠ [])
    {c c' : List Resource} {lines : List (List Char)}
    (h : create kubectl binPath p true true c = (.ok lines, c')) : ∀ r ∈ resources, r ∈ c' := by
  rw [create_files kubectl binPath hfiles, hk.get_reads] at h
  split at h
  case isTrue hreports =>
    obtain rfl := (Prod.mk.inj h).2
    exact hk.get_all c hreports.1
  case isFalse =>
    obtain ⟨hrc, rfl⟩ := execute_ok kubectl binPath h
    exact hk.apply_all c hrc

theorem reachesState_iff (hk : Documented kubectl binPath p resources) (hfiles : p.filename ≠ [])
    (c : List Resource) : ReachesState kubectl binPath p resources c ↔
      (p.state = .absent → p.force = true ∨ Reports kubectl binPath p c ∨ ∀ r ∈ resources, r ∉ c) := by
  have hdelete := delete_files kubectl binPath hfiles c
  rw [hk.get_reads] at hdelete
  constructor
  · intro h hstate
    by_contra hno
    rw [not_or, not_or] at hno
    obtain ⟨hforce, hreports, hthere⟩ := hno
    rw [if_neg hforce, if_neg hreports] at hdelete
    refine hthere (h.absent hstate [] c ?_)
    rw [main, hstate]
    exact hdelete
  · intro h
    refine ⟨fun hstate lines c' hmain => ?_, fun hstate lines c' hmain => ?_⟩
    · rw [main, hstate] at hmain
      have hdeleted : execute kubectl binPath p (deleteFiles p) c = (.ok lines, c') →
          ∀ r ∈ resources, r ∉ c' := by
        intro hexec r hr
        obtain ⟨hrc, rfl⟩ := execute_ok kubectl binPath hexec
        exact (hk.delete_all c hrc r hr).2
      change delete kubectl binPath p c = _ at hmain
      rw [hdelete] at hmain
      split at hmain
      case isTrue => exact hdeleted hmain
      case isFalse hforce =>
        split at hmain
        case isTrue => exact hdeleted hmain
        case isFalse hreports =>
          obtain rfl := (Prod.mk.inj hmain).2
          exact ((h hstate).resolve_left hforce).resolve_left hreports
    · rw [main, hstate] at hmain
      exact present_of_create hk hfiles hmain

end Reaching

def webResources : List String := ["deployment.apps/web", "service/web"]

def webParams : Params := { filename := ["/tmp/web.yml"], state := .absent }

/-- What kubectl says of the resources, some of which may be missing. -/
def answer (c : List String) : Output :=
  if webResources.all (· ∈ c) then ⟨0, "\n".intercalate webResources, ""⟩
  else ⟨1, "", "Error from server (NotFound)"⟩

/-- kubectl on a cluster of the names of its resources. -/
def kubectlOnNames (args : List String) (c : List String) : Output × List String :=
  if "get" ∈ args then (answer c, c)
  else if "apply" ∈ args then (answer webResources, c ++ webResources)
  else if "delete" ∈ args then (answer c, c.filter (· ∉ webResources))
  else (⟨1, "", "unknown command"⟩, c)

theorem kubectlOnNames_documented : Documented kubectlOnNames "kubectl" webParams webResources := by
  have hget : "get" ∈ baseCmd "kubectl" webParams ++ getFiles webParams := by decide
  have hdelete : "get" ∉ baseCmd "kubectl" webParams ++ deleteFiles webParams ∧
      "apply" ∉ baseCmd "kubectl" webParams ++ deleteFiles webParams ∧
      "delete" ∈ baseCmd "kubectl" webParams ++ deleteFiles webParams := by decide
  have happly : "get" ∉ baseCmd "kubectl" webParams ++ applyFiles webParams ∧
      "apply" ∈ baseCmd "kubectl" webParams ++ applyFiles webParams := by decide
  have hall : ∀ c, (answer c).rc = 0 → ∀ r ∈ webResources, r ∈ c := by
    intro c hrc
    rw [answer] at hrc
    split at hrc
    case isTrue h => simpa using h
    case isFalse => cases hrc
  refine ⟨fun c => ?_, fun c hrc => ?_, fun c _ r hr => ?_, fun c hrc r hr => ?_⟩
  · rw [kubectlOnNames, if_pos hget]
  · rw [kubectlOnNames, if_pos hget] at hrc
    exact hall c hrc
  · rw [kubectlOnNames, if_neg happly.1, if_pos happly.2]
    exact List.mem_append_right c hr
  · rw [kubectlOnNames, if_neg hdelete.1, if_neg hdelete.2.1, if_pos hdelete.2.2] at hrc ⊢
    exact ⟨hall c hrc r hr, by simp [hr]⟩

theorem webParams_reachesState_iff : ReachesState kubectlOnNames "kubectl" webParams webResources [] ↔
    (webParams.state = .absent → webParams.force = true ∨
      Reports kubectlOnNames "kubectl" webParams [] ∨ ∀ r ∈ webResources, r ∉ ([] : List String)) :=
  reachesState_iff kubectlOnNames_documented (by decide) []

/-- One of the two is there, and stays. -/
theorem web_half_there : ¬ ∀ (kubectl : List String → List String → Output × List String)
    (binPath : String) (p : Params) (resources c : List String), p.filename ≠ [] →
      Documented kubectl binPath p resources → ReachesState kubectl binPath p resources c := by
  intro h
  have habsent := (h kubectlOnNames "kubectl" webParams webResources ["service/web"] (by decide)
    kubectlOnNames_documented).absent rfl [] ["service/web"] (by rfl)
  exact habsent "service/web" (by decide) (by decide)

end Kubespray.Library

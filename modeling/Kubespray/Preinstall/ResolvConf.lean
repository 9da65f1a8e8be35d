import Mathlib.Data.List.Infix

/-! roles/kubernetes/preinstall/tasks/0060-resolvconf.yml: the task that removes the options which
stand behind the block of Ansible in resolv.conf. -/
namespace Kubespray.Preinstall

inductive Keyword where
  | search
  | nameserver
  | domain
  | options
  deriving DecidableEq

def Keyword.text : Keyword → List Char
  | .search => "search ".toList
  | .nameserver => "nameserver ".toList
  | .domain => "domain ".toList
  | .options => "options ".toList

/-- The order of with_nested. -/
def keywords : List Keyword := [.search, .nameserver, .domain, .options]

def isOption (k : Keyword) (line : List Char) : Bool := k.text.isPrefixOf line

/-- The line ends with `# Ansible entries END`. -/
def isMarker (line : List Char) : Bool := "# Ansible entries END".toList.isSuffixOf line

section Substitution

/-- Where the substitution stands: it looks for a marker, keeps the lines behind one up to the
keyword, or cuts the lines of the keyword. -/
inductive Mode where
  | outside
  | kept
  | cut

def afterLine (line : List Char) : Mode := if isMarker line then .kept else .outside

/-- `(# Ansible entries END\n(?:(?!^k).*\n)*)(?:^k.*\n?)+` to `\1`, on lines: all matches, each of
which cuts one run of lines. -/
def removeOptions (k : Keyword) : Mode → List (List Char) → List (List Char)
  | _, [] => []
  | .outside, l :: ls => l :: removeOptions k (afterLine l) ls
  | .kept, l :: ls => if isOption k l then removeOptions k .cut ls else l :: removeOptions k .kept ls
  | .cut, l :: ls =>
    if isOption k l then removeOptions k .cut ls else l :: removeOptions k (afterLine l) ls

/-- The four executions of the task on one file. -/
def removeAfterBlock (lines : List (List Char)) : List (List Char) :=
  keywords.foldl (fun ls k => removeOptions k .outside ls) lines

variable (k : Keyword)

/-- Lines of another kind are kept, in order. -/
theorem filter_removeOptions {P : List Char → Bool} (hP : ∀ l, P l = true → isOption k l = false)
    (mode : Mode) (ls : List (List Char)) : (removeOptions k mode ls).filter P = ls.filter P := by
  have hdrop : ∀ l, isOption k l = true → ¬ P l = true := fun l hl hp => by simp [hP l hp] at hl
  induction ls generalizing mode with
  | nil => cases mode <;> rfl
  | cons l ls ih =>
    cases mode with
    | outside => rw [removeOptions, List.filter_cons, List.filter_cons, ih]
    | kept =>
      rw [removeOptions]
      split
      · rename_i hl
        rw [ih, List.filter_cons_of_neg (hdrop l hl)]
      · rw [List.filter_cons, List.filter_cons, ih]
    | cut =>
      rw [removeOptions]
      split
      · rename_i hl
        rw [ih, List.filter_cons_of_neg (hdrop l hl)]
      · rw [List.filter_cons, List.filter_cons, ih]

/-- Before the first marker nothing is cut. -/
theorem removeOptions_append {before : List (List Char)} (hb : ∀ l ∈ before, isMarker l = false)
    {m : List Char} (hm : isMarker m = true) (after : List (List Char)) :
    removeOptions k .outside (before ++ m :: after) = before ++ m :: removeOptions k .kept after := by
  induction before with
  | nil => rw [List.nil_append, List.nil_append, removeOptions, afterLine, if_pos hm]
  | cons l ls ih =>
    have hl : ¬ isMarker l = true := by simp [hb l (by simp)]
    rw [List.cons_append, removeOptions, afterLine, if_neg hl,
      ih fun x hx => hb x (List.mem_cons_of_mem l hx), List.cons_append]

end Substitution

section Separated
variable (k : Keyword)

/-- Before the next line of the keyword stands a marker. -/
def MarkerFirst (ls : List (List Char)) : Prop :=
  (∃ l ∈ ls, isOption k l = true) → ∃ l ∈ ls.takeWhile (fun l => !isOption k l), isMarker l = true

/-- The next line of the keyword comes at once, or behind a marker. -/
def AtOnceOrMarked (ls : List (List Char)) : Prop :=
  (∃ l, ls.head? = some l ∧ isOption k l = true) ∨ MarkerFirst k ls

/-- Whatever stands between two lines of the keyword, a marker is among it. -/
def Separated (ls : List (List Char)) : Prop :=
  ∀ l rest, l :: rest <:+ ls → isOption k l = true → AtOnceOrMarked k rest

variable {k}

theorem separated_cons {l : List Char} {ls : List (List Char)} :
    Separated k (l :: ls) ↔ (isOption k l = true → AtOnceOrMarked k ls) ∧ Separated k ls := by
  constructor
  · intro h
    exact ⟨h l ls List.suffix_rfl, fun x rest hs => h x rest (hs.trans (List.suffix_cons l ls))⟩
  · intro h x rest hs hx
    obtain heq | hs := List.suffix_cons_iff.mp hs
    · obtain ⟨rfl, rfl⟩ := List.cons.inj heq
      exact h.1 hx
    · exact h.2 x rest hs hx

theorem markerFirst_cons {l : List Char} {ls : List (List Char)} : MarkerFirst k (l :: ls) ↔
    isOption k l = false ∧ (isMarker l = false → MarkerFirst k ls) := by
  cases hl : isOption k l with
  | true => simp [MarkerFirst, hl]
  | false => cases hm : isMarker l <;> simp [MarkerFirst, hl, hm]

theorem atOnceOrMarked_cons {l : List Char} {ls : List (List Char)} : AtOnceOrMarked k (l :: ls) ↔
    (isOption k l = false → isMarker l = false → MarkerFirst k ls) := by
  rw [AtOnceOrMarked, markerFirst_cons]
  cases hl : isOption k l <;> simp [hl]

/-- What each mode needs, so that no line of the keyword is left. -/
def Ready (k : Keyword) : Mode → List (List Char) → Prop
  | .outside, ls => MarkerFirst k ls
  | .kept, _ => True
  | .cut, ls => AtOnceOrMarked k ls

theorem removeOptions_clean_iff (mode : Mode) (ls : List (List Char)) :
    (∀ l ∈ removeOptions k mode ls, isOption k l = false) ↔ Ready k mode ls ∧ Separated k ls := by
  induction ls generalizing mode with
  | nil => cases mode <;> simp [removeOptions, Ready, MarkerFirst, AtOnceOrMarked, Separated]
  | cons l ls ih =>
    have hafter : Ready k (afterLine l) ls ↔ (isMarker l = false → MarkerFirst k ls) := by
      rw [afterLine]
      cases isMarker l <;> simp [Ready]
    have hoption : isOption k l = true ∨ isOption k l = false := by cases isOption k l <;> simp
    cases mode with
    | outside =>
      rw [removeOptions, List.forall_mem_cons, ih, hafter, separated_cons, Ready, markerFirst_cons]
      obtain hl | hl := hoption <;> simp [hl]
    | kept =>
      rw [removeOptions, separated_cons, Ready]
      obtain hl | hl := hoption
      · rw [if_pos hl, ih, Ready]
        simp [hl]
      · rw [if_neg (by simp [hl]), List.forall_mem_cons, ih, Ready]
        simp [hl]
    | cut =>
      rw [removeOptions, separated_cons, Ready, atOnceOrMarked_cons]
      obtain hl | hl := hoption
      · rw [if_pos hl, ih, Ready]
        simp [hl]
      · rw [if_neg (by simp [hl]), List.forall_mem_cons, ih, hafter]
        simp [hl]

/-- The execution for one keyword removes all its lines exactly where they are separated. -/
theorem removeOptions_eq_filter_iff (ls : List (List Char)) :
    removeOptions k .kept ls = ls.filter (fun l => !isOption k l) ↔ Separated k ls := by
  have hkeep := filter_removeOptions k (P := fun l => !isOption k l) (by simp) .kept ls
  have hclean := removeOptions_clean_iff (k := k) .kept ls
  rw [← hkeep, eq_comm, List.filter_eq_self]
  simpa [Ready] using hclean

end Separated

section Task

theorem head?_of_isOption {k : Keyword} {l : List Char} (h : isOption k l = true) :
    l.head? = k.text.head? := by
  rw [isOption, List.isPrefixOf_iff_prefix] at h
  obtain ⟨u, rfl⟩ := h
  cases k <;> rfl

/-- No line is an option of two kinds. -/
theorem isOption_unique {j k : Keyword} {l : List Char} (hj : isOption j l = true)
    (hk : isOption k l = true) : j = k := by
  have hhead := (head?_of_isOption hj).symm.trans (head?_of_isOption hk)
  cases j <;> cases k <;> first | rfl | exact absurd hhead (by decide)

/-- The keywords in order, each on the lines that the earlier ones leave. -/
def AllSeparated : List Keyword → List (List Char) → Prop
  | [], _ => True
  | k :: ks, ls => Separated k ls ∧ AllSeparated ks (ls.filter fun l => !isOption k l)

theorem filter_foldl_removeOptions {P : List Char → Bool} {ks : List Keyword}
    (hP : ∀ k ∈ ks, ∀ l, P l = true → isOption k l = false) (ls : List (List Char)) :
    (ks.foldl (fun ls k => removeOptions k .kept ls) ls).filter P = ls.filter P := by
  induction ks generalizing ls with
  | nil => rfl
  | cons k ks ih =>
    rw [List.foldl_cons, ih fun j hj => hP j (List.mem_cons_of_mem k hj),
      filter_removeOptions k (hP k List.mem_cons_self)]

theorem foldl_removeOptions_iff {ks : List Keyword} (hnodup : ks.Nodup) (ls : List (List Char)) :
    ks.foldl (fun ls k => removeOptions k .kept ls) ls = ls.filter (fun l => !ks.any (isOption · l)) ↔
      AllSeparated ks ls := by
  induction ks generalizing ls with
  | nil => simp [AllSeparated]
  | cons k ks ih =>
    rw [List.nodup_cons] at hnodup
    have hboth : ls.filter (fun l => !(k :: ks).any (isOption · l)) =
        (ls.filter fun l => !isOption k l).filter fun l => !ks.any (isOption · l) := by
      rw [List.filter_filter]
      refine List.filter_congr fun l _ => ?_
      rw [List.any_cons, Bool.not_or, Bool.and_comm]
    rw [List.foldl_cons, AllSeparated, ← ih hnodup.2, hboth, ← removeOptions_eq_filter_iff]
    refine ⟨fun h => ?_, fun h => by rw [h.1, h.2]⟩
    -- no later execution touches a line of the first keyword, so the first has removed them all
    have hothers : ∀ j ∈ ks, ∀ l, isOption k l = true → isOption j l = false := by
      intro j hj l hl
      by_contra hjl
      exact hnodup.1 (isOption_unique (by simpa using hjl) hl ▸ hj)
    have hkept := filter_foldl_removeOptions hothers (removeOptions k .kept ls)
    have hnone : (removeOptions k .kept ls).filter (isOption k) = [] := by
      rw [← hkept, h, List.filter_eq_nil_iff]
      intro l hl
      simpa using List.of_mem_filter (List.mem_of_mem_filter hl)
    have hfirst : removeOptions k .kept ls = ls.filter fun l => !isOption k l := by
      rw [List.filter_eq_nil_iff] at hnone
      rw [← filter_removeOptions k (P := fun l => !isOption k l) (by simp) .kept ls, eq_comm,
        List.filter_eq_self]
      exact fun l hl => by simpa using hnone l hl
    exact ⟨hfirst, hfirst ▸ h⟩

/-- A file with the block, around the first line that ends with the marker. -/
structure BlockFile where
  before : List (List Char)
  marker : List Char
  after : List (List Char)
  isMarker_marker : isMarker marker = true
  isMarker_before : ∀ l ∈ before, isMarker l = false

def BlockFile.lines (f : BlockFile) : List (List Char) := f.before ++ f.marker :: f.after

/-- Behind the marker no option is left, and all other lines are as they were. -/
def RemovesOptions (f : BlockFile) : Prop :=
  removeAfterBlock f.lines =
    f.before ++ f.marker :: f.after.filter fun l => !keywords.any (isOption · l)

theorem removesOptions_iff (f : BlockFile) : RemovesOptions f ↔ AllSeparated keywords f.after := by
  have hrun : ∀ (ks : List Keyword) (after : List (List Char)),
      ks.foldl (fun ls k => removeOptions k .outside ls) (f.before ++ f.marker :: after) =
        f.before ++ f.marker :: ks.foldl (fun ls k => removeOptions k .kept ls) after := by
    intro ks
    induction ks with
    | nil => exact fun _ => rfl
    | cons k ks ih =>
      intro after
      rw [List.foldl_cons, removeOptions_append k f.isMarker_before f.isMarker_marker, ih, List.foldl_cons]
  rw [RemovesOptions, removeAfterBlock, BlockFile.lines, hrun, List.append_cancel_left_eq,
    List.cons_inj_right, foldl_removeOptions_iff (by decide)]

/-- Lines of another kind stand between two of the same keyword. -/
def twoSearchLines : BlockFile where
  before := ["# Ansible entries BEGIN".toList]
  marker := "# Ansible entries END".toList
  after := ["search a.example".toList, "nameserver 10.0.0.2".toList, "# local".toList,
    "search b.example".toList]
  isMarker_marker := by decide
  isMarker_before := by decide

theorem second_search_stays : ¬ ∀ f : BlockFile, RemovesOptions f := by
  intro h
  have hfile := h twoSearchLines
  revert hfile
  rw [RemovesOptions]
  decide

end Task

end Kubespray.Preinstall

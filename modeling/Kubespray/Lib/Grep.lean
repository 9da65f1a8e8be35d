import Mathlib.Data.List.Forall2
import Mathlib.Data.List.Infix

/-! Unanchored search for a basic regular expression over the lines of a text,
for expressions whose only special character is the dot. -/
namespace Grep

inductive Atom where
  | any
  | lit (c : Char)
  deriving DecidableEq

def Atom.accepts : Atom → Char → Bool
  | .any, _ => true
  | .lit c, x => c = x

abbrev Pattern := List Atom

/-- The expression written as `text`, where `.` is the only special character. -/
def compile (text : List Char) : Pattern :=
  text.map fun c => if c = '.' then .any else .lit c

def matchPrefix : Pattern → List Char → Bool
  | [], _ => true
  | _ :: _, [] => false
  | a :: p, c :: cs => a.accepts c && matchPrefix p cs

def search (p : Pattern) : List Char → Bool
  | [] => matchPrefix p []
  | c :: cs => matchPrefix p (c :: cs) || search p cs

/-- `w` is an instance of the pattern, character by character. -/
def Accepts (p : Pattern) (w : List Char) : Prop := List.Forall₂ (fun a c => a.accepts c = true) p w

theorem matchPrefix_iff (p : Pattern) (cs : List Char) :
    matchPrefix p cs = true ↔ ∃ w v, cs = w ++ v ∧ Accepts p w := by
  induction p generalizing cs with
  | nil => simp [matchPrefix, Accepts]
  | cons a p ih =>
    cases cs with
    | nil => simp [matchPrefix, Accepts]
    | cons c cs =>
      rw [matchPrefix, Bool.and_eq_true, ih]
      constructor
      · intro hfacts
        obtain ⟨hc, w, v, rfl, hw⟩ := hfacts
        exact ⟨c :: w, v, rfl, .cons hc hw⟩
      · intro hfacts
        obtain ⟨w, v, he, hw⟩ := hfacts
        cases hw with
        | cons hc hw =>
          rw [List.cons_append, List.cons.injEq] at he
          exact ⟨he.1 ▸ hc, _, v, he.2, hw⟩

theorem search_iff (p : Pattern) (cs : List Char) :
    search p cs = true ↔ ∃ u w v, cs = u ++ w ++ v ∧ Accepts p w := by
  induction cs with
  | nil =>
    rw [search, matchPrefix_iff]
    constructor
    · intro hfacts
      obtain ⟨w, v, he, hw⟩ := hfacts
      exact ⟨[], w, v, he, hw⟩
    · intro hfacts
      obtain ⟨u, w, v, he, hw⟩ := hfacts
      obtain ⟨rfl, rfl, rfl⟩ : u = [] ∧ w = [] ∧ v = [] := by simpa using he.symm
      exact ⟨[], [], rfl, hw⟩
  | cons c cs ih =>
    rw [search, Bool.or_eq_true, ih, matchPrefix_iff]
    constructor
    · rintro (⟨w, v, he, hw⟩ | ⟨u, w, v, rfl, hw⟩)
      · exact ⟨[], w, v, he, hw⟩
      · exact ⟨c :: u, w, v, rfl, hw⟩
    · intro hfacts
      obtain ⟨u, w, v, he, hw⟩ := hfacts
      cases u with
      | nil => exact .inl ⟨w, v, he, hw⟩
      | cons d u =>
        simp only [List.cons_append, List.cons.injEq] at he
        exact .inr ⟨u, w, v, he.2, hw⟩

theorem accepts_compile (text : List Char) : Accepts (compile text) text := by
  induction text with
  | nil => exact .nil
  | cons c cs ih =>
    have hc : (if c = '.' then Atom.any else .lit c).accepts c = true := by
      by_cases h : c = '.' <;> simp [h, Atom.accepts]
    exact .cons hc ih

theorem search_compile_self (u text v : List Char) :
    search (compile text) (u ++ text ++ v) = true :=
  (search_iff _ _).mpr ⟨u, text, v, rfl, accepts_compile text⟩

/-- A text without special characters. -/
def literal (text : List Char) : Pattern := text.map .lit

theorem accepts_literal_iff (text w : List Char) : Accepts (literal text) w ↔ text = w := by
  rw [Accepts, literal, List.forall₂_map_left_iff, ← List.forall₂_eq_eq_eq]
  simp only [Atom.accepts, decide_eq_true_iff]

theorem search_literal_iff (text cs : List Char) : search (literal text) cs = true ↔ text <:+: cs := by
  rw [search_iff]
  constructor
  · intro h
    obtain ⟨u, w, v, hcs, hw⟩ := h
    obtain rfl := (accepts_literal_iff text w).mp hw
    exact ⟨u, v, hcs.symm⟩
  · intro h
    obtain ⟨u, v, hcs⟩ := h
    exact ⟨u, text, v, hcs.symm, (accepts_literal_iff text text).mpr rfl⟩

/-- `grep pattern`: the lines in which the pattern matches. -/
def grep (pattern : String) (lines : List String) : List String :=
  lines.filter fun l => search (compile pattern.toList) l.toList

/-- `cut -d, -f1`: the text before the first comma of each line. -/
def cutFirstField (lines : List String) : List String :=
  lines.map fun l => String.ofList (l.toList.takeWhile (· ≠ ','))

/-- Somewhere in `line` stands `text`, with any character for each of its dots. -/
def Occurs (text line : String) : Prop :=
  ∃ u w v, line.toList = u ++ w ++ v ∧ List.Forall₂ (fun a c => a = '.' ∨ a = c) text.toList w

theorem accepts_compile_iff (text w : List Char) :
    Accepts (compile text) w ↔ List.Forall₂ (fun a c => a = '.' ∨ a = c) text w := by
  rw [Accepts, compile, List.forall₂_map_left_iff]
  refine iff_of_eq (congrArg (List.Forall₂ · text w) ?_)
  funext a c
  by_cases h : a = '.' <;> simp [h, Atom.accepts]

theorem search_iff_occurs (text line : String) :
    search (compile text.toList) line.toList = true ↔ Occurs text line := by
  simp only [search_iff, accepts_compile_iff, Occurs]

instance (text line : String) : Decidable (Occurs text line) :=
  decidable_of_iff _ (search_iff_occurs text line)

theorem mem_grep (pattern line : String) (lines : List String) :
    line ∈ grep pattern lines ↔ line ∈ lines ∧ Occurs pattern line := by
  rw [grep, List.mem_filter, search_iff_occurs]

theorem occurs_of_append (u text v : String) : Occurs text (u ++ text ++ v) := by
  rw [← search_iff_occurs]
  simpa using search_compile_self u.toList text.toList v.toList

end Grep

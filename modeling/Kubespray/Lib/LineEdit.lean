import Kubespray.Lib.Grep
import Mathlib.Algebra.Ring.Nat
import Mathlib.Tactic.Common

/-! Ansible's lineinfile and replace on the lines of a file, for regular expressions whose only
special character is the dot, and lists of such edits. -/
namespace LineEdit
open Grep

def matchesLine (p : Pattern) (line : String) : Bool := search p line.toList

section Lineinfile

/-- insertafter with firstmatch: nothing is inserted where the line stands before the first line
that matches, or right behind it; without a match the line goes last. -/
def insertAfter (after : Pattern) (line : String) (lines : List String) : List String :=
  let before := lines.takeWhile fun l => l = line || !matchesLine after l
  if line ∈ before then lines
  else match lines.drop before.length with
    | [] => lines ++ [line]
    | l :: rest => if rest.head? = some line then lines else before ++ l :: line :: rest

def replaceFirst (p : Pattern) (line : String) : List String → List String
  | [] => []
  | l :: ls => if matchesLine p l then line :: ls else l :: replaceFirst p line ls

/-- lineinfile with a regexp: the first line that matches it is replaced; insertafter counts
where there is none. -/
def lineinfile (regexp after : Pattern) (line : String) (lines : List String) : List String :=
  if lines.any (matchesLine regexp) then replaceFirst regexp line lines
  else insertAfter after line lines

theorem insertAfter_cases (after : Pattern) (line : String) (lines : List String) :
    insertAfter after line lines = lines ∨
      ∃ u v, lines = u ++ v ∧ insertAfter after line lines = u ++ line :: v := by
  simp only [insertAfter]
  set before := lines.takeWhile fun l => l = line || !matchesLine after l with hdef
  have hcut : before ++ lines.drop before.length = lines :=
    List.prefix_iff_eq_append.mp (List.takeWhile_prefix _)
  split
  · exact .inl rfl
  · cases hd : lines.drop before.length with
    | nil => exact .inr ⟨lines, [], by simp, by simp⟩
    | cons l rest =>
      simp only
      split
      · exact .inl rfl
      · refine .inr ⟨before ++ [l], rest, ?_, by simp⟩
        rw [hd] at hcut
        simp [hcut]

theorem mem_insertAfter_self (after : Pattern) (line : String) (lines : List String) :
    line ∈ insertAfter after line lines := by
  simp only [insertAfter]
  set before := lines.takeWhile fun l => l = line || !matchesLine after l with hdef
  split
  · rename_i hin
    exact (List.takeWhile_prefix _).subset hin
  · cases hd : lines.drop before.length with
    | nil => simp
    | cons l rest =>
      simp only
      split
      · rename_i hhead
        have hrest : line ∈ rest := List.mem_of_mem_head? hhead
        exact List.mem_of_mem_drop (hd ▸ List.mem_cons_of_mem l hrest)
      · simp

theorem length_insertAfter (after : Pattern) (line : String) (lines : List String) :
    insertAfter after line lines = lines ∨
      (insertAfter after line lines).length = lines.length + 1 := by
  refine (insertAfter_cases after line lines).imp id fun hex => ?_
  obtain ⟨u, v, hlines, hnew⟩ := hex
  rw [hnew, hlines]
  simp only [List.length_append, List.length_cons]
  omega

theorem replaceFirst_append {p : Pattern} {line : String} {u v : List String}
    (hu : ∀ l ∈ u, matchesLine p l = false) :
    replaceFirst p line (u ++ v) = u ++ replaceFirst p line v := by
  induction u with
  | nil => rfl
  | cons l u ih =>
    have hl : ¬ matchesLine p l = true := by simp [hu l (by simp)]
    rw [List.cons_append, replaceFirst, if_neg hl, ih fun x hx => hu x (List.mem_cons_of_mem l hx),
      List.cons_append]

/-- Where a line matches, the replacement is at the first such line. -/
theorem exists_replaceFirst {p : Pattern} (line : String) {lines : List String}
    (h : lines.any (matchesLine p) = true) : ∃ u l v, lines = u ++ l :: v ∧
      matchesLine p l = true ∧ (∀ x ∈ u, matchesLine p x = false) ∧
      replaceFirst p line lines = u ++ line :: v := by
  induction lines with
  | nil => cases h
  | cons l ls ih =>
    rw [replaceFirst]
    by_cases hl : matchesLine p l = true
    · exact ⟨[], l, ls, rfl, hl, by simp, by rw [if_pos hl]; rfl⟩
    · obtain ⟨u, x, v, hls, hx, hu, hrep⟩ := ih (by simpa [hl] using h)
      refine ⟨l :: u, x, v, by rw [hls, List.cons_append], hx, fun y hy => ?_, by
        rw [if_neg hl, hrep, List.cons_append]⟩
      cases List.mem_cons.mp hy with
      | inl hyl => simpa [hyl] using hl
      | inr hyu => exact hu y hyu

theorem mem_lineinfile (regexp after : Pattern) (line : String) (lines : List String) :
    line ∈ lineinfile regexp after line lines := by
  by_cases hany : lines.any (matchesLine regexp) = true
  · obtain ⟨u, l, v, -, -, -, hrep⟩ := exists_replaceFirst line hany
    rw [lineinfile, if_pos hany, hrep]
    simp
  · rw [lineinfile, if_neg hany]
    exact mem_insertAfter_self after line lines

/-- The line that the task writes matches its own regexp: a second time it changes nothing. -/
theorem lineinfile_idem (regexp after : Pattern) (line : String) (lines : List String)
    (hline : matchesLine regexp line = true) :
    lineinfile regexp after line (lineinfile regexp after line lines) =
      lineinfile regexp after line lines := by
  have hself : ∀ u v : List String, (∀ x ∈ u, matchesLine regexp x = false) →
      lineinfile regexp after line (u ++ line :: v) = u ++ line :: v := by
    intro u v hu
    have hany : (u ++ line :: v).any (matchesLine regexp) = true := by simp [hline]
    rw [lineinfile, if_pos hany, replaceFirst_append hu, replaceFirst, if_pos hline]
  by_cases hany : lines.any (matchesLine regexp) = true
  · obtain ⟨u, l, v, -, -, hu, hrep⟩ := exists_replaceFirst line hany
    have hnew : lineinfile regexp after line lines = u ++ line :: v := by
      rw [lineinfile, if_pos hany, hrep]
    rw [hnew, hself u v hu]
  · have hins : lineinfile regexp after line lines = insertAfter after line lines := if_neg hany
    cases insertAfter_cases after line lines with
    | inl hsame => rw [hins, hsame, hins, hsame]
    | inr hex =>
      obtain ⟨u, v, hlines, hnew⟩ := hex
      have hu : ∀ x ∈ u, matchesLine regexp x = false := by
        intro x hx
        by_contra hm
        exact hany (List.any_eq_true.mpr ⟨x, by simp [hlines, hx], by simpa using hm⟩)
      rw [hins, hnew, hself u v hu]

end Lineinfile

section LastMatch
variable {α : Type*}

/-- A file around the last line that matches; without one, everything stands before it. -/
structure Cut (α : Type*) where
  before : List α
  line? : Option α
  after : List α

def Cut.others (c : Cut α) : List α := c.before ++ c.after

def cutLast (q : α → Bool) : List α → Cut α
  | [] => ⟨[], none, []⟩
  | l :: ls =>
    match cutLast q ls with
    | ⟨u, some x, v⟩ => ⟨l :: u, some x, v⟩
    | ⟨u, none, v⟩ => if q l then ⟨[], some l, ls⟩ else ⟨l :: u, none, v⟩

/-- lineinfile with a regexp and without firstmatch: the last line that matches is replaced, and
without one the line goes to the end. -/
def replaceLast (q : α → Bool) (line : α) (lines : List α) : List α :=
  (cutLast q lines).before ++ line :: (cutLast q lines).after

variable {q P : α → Bool}

theorem cutLast_cons_some {l x : α} {ls : List α} (h : (cutLast q ls).line? = some x) :
    cutLast q (l :: ls) = ⟨l :: (cutLast q ls).before, some x, (cutLast q ls).after⟩ := by
  rw [cutLast]
  cases hcut : cutLast q ls with
  | mk u x? v =>
    obtain rfl : x? = some x := by rwa [hcut] at h
    rfl

theorem cutLast_cons_none {l : α} {ls : List α} (h : (cutLast q ls).line? = none) :
    cutLast q (l :: ls) = if q l then ⟨[], some l, ls⟩
      else ⟨l :: (cutLast q ls).before, none, (cutLast q ls).after⟩ := by
  rw [cutLast]
  cases hcut : cutLast q ls with
  | mk u x? v =>
    obtain rfl : x? = none := by rwa [hcut] at h
    rfl

theorem cutLast_lines (q : α → Bool) (lines : List α) :
    (cutLast q lines).before ++ ((cutLast q lines).line?.toList ++ (cutLast q lines).after) = lines := by
  induction lines with
  | nil => rfl
  | cons l ls ih =>
    cases hline : (cutLast q ls).line? with
    | some x =>
      rw [hline] at ih
      rw [cutLast_cons_some hline, List.cons_append, ih]
    | none =>
      rw [hline] at ih
      rw [cutLast_cons_none hline]
      split
      · rfl
      · rw [List.cons_append, ih]

theorem cutLast_matches {lines : List α} {x : α} (h : (cutLast q lines).line? = some x) : q x = true := by
  induction lines with
  | nil => cases h
  | cons l ls ih =>
    cases hline : (cutLast q ls).line? with
    | some y =>
      rw [cutLast_cons_some hline] at h
      exact ih (hline.trans h)
    | none =>
      rw [cutLast_cons_none hline] at h
      split at h
      · rename_i hl
        exact Option.some.inj h ▸ hl
      · cases h

/-- Lines that cannot match do not matter for the cut. -/
theorem cutLast_filter (hP : ∀ x, q x = true → P x = true) (lines : List α) :
    cutLast q (lines.filter P) = ⟨(cutLast q lines).before.filter P, (cutLast q lines).line?,
      (cutLast q lines).after.filter P⟩ := by
  induction lines with
  | nil => rfl
  | cons l ls ih =>
    have hsame : (cutLast q (ls.filter P)).line? = (cutLast q ls).line? := by rw [ih]
    by_cases hl : P l = true
    · rw [List.filter_cons_of_pos hl]
      cases hline : (cutLast q ls).line? with
      | some x =>
        rw [cutLast_cons_some hline, cutLast_cons_some (hsame.trans hline), ih,
          List.filter_cons_of_pos hl]
      | none =>
        rw [cutLast_cons_none hline, cutLast_cons_none (hsame.trans hline), ih]
        split
        · rfl
        · rw [List.filter_cons_of_pos hl]
    · have hq : ¬ q l = true := fun hql => hl (hP l hql)
      rw [List.filter_cons_of_neg hl, ih]
      cases hline : (cutLast q ls).line? with
      | some x => rw [cutLast_cons_some hline, List.filter_cons_of_neg hl]
      | none => rw [cutLast_cons_none hline, if_neg hq, List.filter_cons_of_neg hl]

theorem filter_replaceLast (hP : ∀ x, q x = true → P x = true) {line : α} (hline : P line = true)
    (lines : List α) : (replaceLast q line lines).filter P = replaceLast q line (lines.filter P) := by
  rw [replaceLast, replaceLast, cutLast_filter hP, List.filter_append, List.filter_cons_of_pos hline]

theorem filter_replaceLast_of_not {line : α} {lines : List α} (hline : P line = false)
    (hcut : ∀ x, (cutLast q lines).line? = some x → P x = false) :
    (replaceLast q line lines).filter P = lines.filter P := by
  conv_rhs => rw [← cutLast_lines q lines]
  rw [replaceLast, List.filter_append, List.filter_append, List.filter_append,
    List.filter_cons_of_neg (by simp [hline])]
  cases hx : (cutLast q lines).line? with
  | none => simp
  | some x => simp [hcut x hx]

/-- What is not to be found in the new line is missing once where the old one had it. -/
theorem length_filter_replaceLast {line x : α} {lines : List α} (hline : P line = false)
    (hcut : (cutLast q lines).line? = some x) (hx : P x = true) :
    ((replaceLast q line lines).filter P).length + 1 = (lines.filter P).length := by
  conv_rhs => rw [← cutLast_lines q lines]
  simp [replaceLast, hcut, hline, hx]
  omega

theorem mem_replaceLast_iff {line x : α} {lines : List α} :
    x ∈ replaceLast q line lines ↔ x = line ∨ x ∈ (cutLast q lines).others := by
  simp only [replaceLast, Cut.others, List.mem_append, List.mem_cons]
  tauto

theorem mem_iff_mem_others (q : α → Bool) (lines : List α) (x : α) :
    x ∈ lines ↔ (cutLast q lines).line? = some x ∨ x ∈ (cutLast q lines).others := by
  conv_lhs => rw [← cutLast_lines q lines]
  simp only [Cut.others, List.mem_append, Option.mem_toList]
  tauto

end LastMatch

section Replace

/-- re.sub on the characters of a line, for a pattern that is not empty: the matches do not
overlap, and `skip` characters of the last one are still to be passed. -/
def sub (p : Pattern) (r : List Char) : Nat → List Char → List Char
  | _, [] => []
  | skip + 1, _ :: cs => sub p r skip cs
  | 0, c :: cs =>
    if matchPrefix p (c :: cs) then r ++ sub p r (p.length - 1) cs else c :: sub p r 0 cs

/-- `s/p/r/` of sed: the first match only. -/
def subFirst (p : Pattern) (r : List Char) : List Char → List Char
  | [] => []
  | c :: cs =>
    if matchPrefix p (c :: cs) then r ++ (c :: cs).drop p.length else c :: subFirst p r cs

/-- The expression written as a text matches the text itself, and nothing stands before it. -/
theorem subFirst_compile (text r v : List Char) (ht : text ≠ []) :
    subFirst (compile text) r (text ++ v) = r ++ v := by
  have hm : matchPrefix (compile text) (text ++ v) = true :=
    (matchPrefix_iff _ _).mpr ⟨text, v, rfl, accepts_compile text⟩
  have hlen : (compile text).length = text.length := by simp [compile]
  obtain ⟨c, cs, rfl⟩ := List.exists_cons_of_ne_nil ht
  rw [List.cons_append] at hm ⊢
  rw [subFirst, if_pos hm, hlen, ← List.cons_append, List.drop_left]

theorem subFirst_of_not_search {p : Pattern} {r cs : List Char} (h : search p cs = false) :
    subFirst p r cs = cs := by
  induction cs with
  | nil => rfl
  | cons c cs ih =>
    rw [search, Bool.or_eq_false_iff] at h
    rw [subFirst, if_neg (by simp [h.1]), ih h.2]

def replaceLine (p : Pattern) (r line : String) : String :=
  String.ofList (sub p r.toList 0 line.toList)

/-- The module replace; no match goes over the end of a line. -/
def replace (p : Pattern) (r : String) (lines : List String) : List String :=
  lines.map (replaceLine p r)

theorem sub_of_not_search {p : Pattern} {r cs : List Char} (h : search p cs = false) :
    sub p r 0 cs = cs := by
  induction cs with
  | nil => rfl
  | cons c cs ih =>
    rw [search, Bool.or_eq_false_iff] at h
    rw [sub, if_neg (by simp [h.1]), ih h.2]

section Longer
variable {p : Pattern} {r : List Char}

theorem length_sub (hr : p.length < r.length) (skip : Nat) (cs : List Char) :
    cs.length ≤ (sub p r skip cs).length + skip := by
  induction cs generalizing skip with
  | nil => exact Nat.zero_le _
  | cons c cs ih =>
    cases skip with
    | succ skip =>
      have h := ih skip
      rw [sub, List.length_cons]
      omega
    | zero =>
      rw [sub]
      split
      · have h := ih (p.length - 1)
        rw [List.length_append, List.length_cons]
        omega
      · have h := ih 0
        rw [List.length_cons, List.length_cons]
        omega

/-- A longer replacement makes the text longer, and longer than itself. -/
theorem length_sub_of_search (hp : p ≠ []) (hr : p.length < r.length) {cs : List Char}
    (h : search p cs = true) :
    cs.length < (sub p r 0 cs).length ∧ r.length ≤ (sub p r 0 cs).length := by
  induction cs with
  | nil =>
    cases p with
    | nil => exact absurd rfl hp
    | cons a p => simp [search, matchPrefix] at h
  | cons c cs ih =>
    rw [sub]
    by_cases hm : matchPrefix p (c :: cs) = true
    · have hpos := List.length_pos_iff.mpr hp
      have hle := length_sub hr (p.length - 1) cs
      rw [if_pos hm, List.length_append, List.length_cons]
      omega
    · have hlt := ih (by rwa [search, Bool.or_eq_true, or_iff_right hm] at h)
      rw [if_neg hm, List.length_cons, List.length_cons]
      omega

end Longer

section Line
variable {p : Pattern} {r : String}

theorem length_replaceLine (line : String) :
    (replaceLine p r line).length = (sub p r.toList 0 line.toList).length := by
  simp [replaceLine]

theorem replaceLine_of_not {line : String} (h : matchesLine p line = false) :
    replaceLine p r line = line := by
  rw [replaceLine, sub_of_not_search h, String.ofList_toList]

theorem length_replaceLine_of_matches (hp : p ≠ []) (hr : p.length < r.length) {line : String}
    (h : matchesLine p line = true) :
    line.length < (replaceLine p r line).length ∧ r.length ≤ (replaceLine p r line).length := by
  rw [length_replaceLine]
  exact length_sub_of_search hp hr h

theorem replaceLine_cases (hp : p ≠ []) (hr : p.length < r.length) (line : String) :
    replaceLine p r line = line ∨ line.length < (replaceLine p r line).length := by
  cases h : matchesLine p line with
  | false => exact .inl (replaceLine_of_not h)
  | true => exact .inr (length_replaceLine_of_matches hp hr h).1

end Line

section Literal
variable {w r : List Char}

theorem matchPrefix_literal_iff (w cs : List Char) : matchPrefix (literal w) cs = true ↔ w <+: cs := by
  rw [matchPrefix_iff]
  constructor
  · intro h
    obtain ⟨u, v, rfl, hu⟩ := h
    obtain rfl := (accepts_literal_iff w u).mp hu
    exact List.prefix_append w v
  · intro h
    obtain ⟨v, rfl⟩ := h
    exact ⟨w, v, rfl, (accepts_literal_iff w w).mpr rfl⟩

theorem sub_skip (p : Pattern) (r u v : List Char) : sub p r u.length (u ++ v) = sub p r 0 v := by
  induction u with
  | nil => rfl
  | cons c u ih => rw [List.length_cons, List.cons_append, sub, ih]

/-- The first match, behind a text in which none can begin. -/
theorem sub_literal_append {c : Char} {u : List Char} (hu : c ∉ u) (v : List Char) :
    sub (literal (c :: w)) r 0 (u ++ (c :: w ++ v)) = u ++ (r ++ sub (literal (c :: w)) r 0 v) := by
  induction u with
  | nil =>
    have hm : matchPrefix (literal (c :: w)) (c :: (w ++ v)) = true :=
      (matchPrefix_literal_iff _ _).mpr (List.prefix_append (c :: w) v)
    have hlen : (literal (c :: w)).length - 1 = w.length := by simp [literal]
    rw [List.nil_append, List.nil_append, List.cons_append, sub, if_pos hm, hlen, sub_skip]
  | cons x u ih =>
    have hx : c ≠ x := fun he => hu (by simp [he])
    have hm : ¬ matchPrefix (literal (c :: w)) (x :: (u ++ (c :: w ++ v))) = true := by
      rw [matchPrefix_literal_iff, List.cons_prefix_cons]
      exact fun h => hx h.1
    rw [List.cons_append, sub, if_neg hm, ih fun h => hu (List.mem_cons_of_mem x h), List.cons_append]

theorem subFirst_literal_append {c : Char} {u : List Char} (hu : c ∉ u) (v : List Char) :
    subFirst (literal [c]) r (u ++ c :: v) = u ++ (r ++ v) := by
  induction u with
  | nil => simp [subFirst, matchPrefix, literal, Atom.accepts]
  | cons x u ih =>
    have hx : c ≠ x := fun he => hu (by simp [he])
    have hm : ¬ matchPrefix (literal [c]) (x :: (u ++ c :: v)) = true := by
      rw [matchPrefix_literal_iff, List.cons_prefix_cons]
      exact fun h => hx h.1
    rw [List.cons_append, subFirst, if_neg hm, ih fun h => hu (List.mem_cons_of_mem x h),
      List.cons_append]

/-- A character for a character. -/
theorem countP_subFirst (q : Char → Bool) (c d : Char) (cs : List Char) :
    (subFirst (literal [c]) [d] cs).countP q + (if c ∈ cs then [c].countP q else 0) =
      cs.countP q + if c ∈ cs then [d].countP q else 0 := by
  by_cases hc : c ∈ cs
  · obtain ⟨u, v, rfl, hu⟩ := List.eq_append_cons_of_mem hc
    rw [subFirst_literal_append hu, if_pos hc, if_pos hc]
    simp only [List.countP_append, List.countP_cons, List.countP_nil]
    omega
  · have hno : search (literal [c]) cs = false := by
      rw [← Bool.not_eq_true, search_literal_iff]
      exact fun h => hc (h.subset (by simp))
    rw [subFirst_of_not_search hno, if_neg hc, if_neg hc]

theorem drop_of_append_eq_cons {c : Char} {v cs : List Char} (hw : w ≠ []) (h : w ++ v = c :: cs) :
    cs.drop (w.length - 1) = v := by
  cases w with
  | nil => exact absurd rfl hw
  | cons x w =>
    obtain ⟨-, rfl⟩ := List.cons.inj h
    simp

variable {q : Char → Bool} (hw : ∀ c ∈ w, q c = true) (hr : r.countP q < w.length)
include hw hr

/-- A shorter replacement leaves fewer of the characters that the text has. -/
theorem countP_sub_le (skip : Nat) (cs : List Char) :
    (sub (literal w) r skip cs).countP q ≤ (cs.drop skip).countP q := by
  induction cs generalizing skip with
  | nil => cases skip <;> simp [sub]
  | cons c cs ih =>
    cases skip with
    | succ skip =>
      rw [sub, List.drop_succ_cons]
      exact ih skip
    | zero =>
      rw [sub, List.drop_zero]
      split
      · rename_i hm
        obtain ⟨v, hv⟩ := (matchPrefix_literal_iff w _).mp hm
        have hrest := ih (w.length - 1)
        rw [drop_of_append_eq_cons (List.ne_nil_of_length_pos (by omega)) hv] at hrest
        rw [← hv, literal, List.length_map, List.countP_append, List.countP_append,
          List.countP_eq_length.mpr hw]
        exact Nat.add_le_add (Nat.le_of_lt hr) hrest
      · have hrest := ih 0
        rw [List.drop_zero] at hrest
        rw [List.countP_cons, List.countP_cons]
        omega

theorem countP_sub_lt {cs : List Char} (h : w <:+: cs) :
    (sub (literal w) r 0 cs).countP q < cs.countP q := by
  induction cs with
  | nil =>
    rw [List.infix_nil.mp h] at hr
    simp at hr
  | cons c cs ih =>
    rw [sub]
    split
    · rename_i hm
      obtain ⟨v, hv⟩ := (matchPrefix_literal_iff w _).mp hm
      have hrest := countP_sub_le hw hr (w.length - 1) cs
      rw [drop_of_append_eq_cons (List.ne_nil_of_length_pos (by omega)) hv] at hrest
      rw [← hv, literal, List.length_map, List.countP_append, List.countP_append,
        List.countP_eq_length.mpr hw]
      exact Nat.add_lt_add_of_lt_of_le hr hrest
    · rename_i hm
      rw [matchPrefix_literal_iff] at hm
      have hrest := ih ((List.infix_cons_iff.mp h).resolve_left hm)
      rw [List.countP_cons, List.countP_cons]
      omega

end Literal

end Replace

section Edits
variable {α : Type*} {size : α → Nat}

/-- What the edit changes gets larger. -/
def Enlarges (size : α → Nat) (e : α → α) : Prop := ∀ x, e x = x ∨ size x < size (e x)

def applyAll (es : List (α → α)) (x : α) : α := es.foldl (fun y e => e y) x

theorem applyAll_append (es fs : List (α → α)) (x : α) :
    applyAll (es ++ fs) x = applyAll fs (applyAll es x) := List.foldl_append

theorem applyAll_of_forall_eq {es : List (α → α)} {x : α} (h : ∀ e ∈ es, e x = x) :
    applyAll es x = x := by
  induction es with
  | nil => rfl
  | cons e es ih =>
    rw [applyAll, List.foldl_cons, h e (by simp)]
    exact ih fun f hf => h f (List.mem_cons_of_mem e hf)

/-- What every edit keeps, all of them keep. -/
theorem applyAll_keeps {P : α → Prop} {es : List (α → α)} (h : ∀ e ∈ es, ∀ x, P x → P (e x))
    {x : α} (hx : P x) : P (applyAll es x) := by
  induction es generalizing x with
  | nil => exact hx
  | cons e es ih => exact ih (fun f hf => h f (List.mem_cons_of_mem e hf)) (h e (by simp) x hx)

theorem size_le_applyAll {es : List (α → α)} (h : ∀ e ∈ es, Enlarges size e) (x : α) :
    size x ≤ size (applyAll es x) := by
  induction es generalizing x with
  | nil => exact Nat.le_refl _
  | cons e es ih =>
    have hrest := ih (fun f hf => h f (List.mem_cons_of_mem e hf)) (e x)
    cases h e (by simp) x with
    | inl heq => rw [heq] at hrest; rwa [applyAll, List.foldl_cons, heq]
    | inr hlt => exact Nat.le_trans (Nat.le_of_lt hlt) hrest

/-- If the size is the same in the end, no edit has changed anything. -/
theorem forall_eq_of_size_le {es : List (α → α)} (h : ∀ e ∈ es, Enlarges size e) {x : α}
    (hsize : size (applyAll es x) ≤ size x) : ∀ e ∈ es, e x = x := by
  induction es with
  | nil => simp
  | cons e es ih =>
    have htail : ∀ f ∈ es, Enlarges size f := fun f hf => h f (List.mem_cons_of_mem e hf)
    have hrest := size_le_applyAll htail (e x)
    have hcons : applyAll (e :: es) x = applyAll es (e x) := rfl
    rw [hcons] at hsize
    cases h e (by simp) x with
    | inl heq =>
      rw [heq] at hsize
      exact List.forall_mem_cons.mpr ⟨heq, ih htail hsize⟩
    | inr hlt => omega

/-- The number of characters of a file, with those that end its lines. -/
def textSize (lines : List String) : Nat := (lines.map fun l => l.length + 1).sum

theorem mem_insertAfter {after : Pattern} {line l : String} {lines : List String} (h : l ∈ lines) :
    l ∈ insertAfter after line lines := by
  cases insertAfter_cases after line lines with
  | inl hsame => rwa [hsame]
  | inr hex =>
    obtain ⟨u, v, hlines, hnew⟩ := hex
    rw [hlines, List.mem_append] at h
    rw [hnew, List.mem_append, List.mem_cons]
    exact h.imp id .inr

theorem insertAfter_enlarges_length (after : Pattern) (line : String) :
    Enlarges List.length (insertAfter after line) := fun lines =>
  (length_insertAfter after line lines).imp id fun h => by omega

theorem insertAfter_enlarges (after : Pattern) (line : String) :
    Enlarges textSize (insertAfter after line) := by
  intro lines
  refine (insertAfter_cases after line lines).imp id fun hex => ?_
  obtain ⟨u, v, hlines, hnew⟩ := hex
  rw [hnew, hlines]
  simp only [textSize, List.map_append, List.sum_append, List.map_cons, List.sum_cons]
  omega

theorem replace_enlarges {p : Pattern} {r : String} (hp : p ≠ []) (hr : p.length < r.length) :
    Enlarges textSize (replace p r) := by
  intro lines
  induction lines with
  | nil => exact .inl rfl
  | cons l ls ih =>
    have hline := replaceLine_cases hp hr l
    have hcons : replace p r (l :: ls) = replaceLine p r l :: replace p r ls := rfl
    have hsize : ∀ x xs, textSize (x :: xs) = x.length + 1 + textSize xs := fun x xs => by
      simp [textSize]
    rw [hcons, hsize, hsize]
    cases hline with
    | inl hl =>
      rw [hl]
      exact ih.imp (fun h => by rw [h]) fun h => by omega
    | inr hl =>
      refine .inr ?_
      cases ih with
      | inl h => rw [h]; omega
      | inr h => omega

end Edits

end LineEdit

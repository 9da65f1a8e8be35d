import Mathlib.Algebra.BigOperators.Group.List.Basic
import Mathlib.Data.List.Forall2
import Mathlib.Data.List.Nodup
import Mathlib.Tactic.Ring

/-! Splitting and joining of texts, and the texts that template loops print. -/

/-- `text.split(sep)` for a one-character separator. -/
def splitChar (sep : Char) : List Char → List (List Char)
  | [] => [[]]
  | c :: cs =>
    if c = sep then [] :: splitChar sep cs
    else match splitChar sep cs with
      | [] => [[c]]
      | p :: ps => (c :: p) :: ps

theorem splitChar_of_not_mem (sep : Char) (p : List Char) (h : sep ∉ p) : splitChar sep p = [p] := by
  induction p with
  | nil => rfl
  | cons c p ih =>
    have hc : c ≠ sep := fun he => h (by simp [he])
    rw [splitChar, if_neg hc, ih fun hm => h (List.mem_cons_of_mem c hm)]

theorem splitChar_append (sep : Char) (p q : List Char) (h : sep ∉ p) :
    splitChar sep (p ++ sep :: q) = p :: splitChar sep q := by
  induction p with
  | nil => simp [splitChar]
  | cons c p ih =>
    have hc : c ≠ sep := fun he => h (by simp [he])
    rw [List.cons_append, splitChar, if_neg hc, ih fun hm => h (List.mem_cons_of_mem c hm)]

theorem splitChar_ne_nil (sep : Char) (cs : List Char) : splitChar sep cs ≠ [] := by
  induction cs with
  | nil => simp [splitChar]
  | cons c cs ih =>
    rw [splitChar]
    split
    · simp
    · split <;> simp

theorem splitChar_append_sep (sep : Char) (p q : List Char) :
    splitChar sep (p ++ sep :: q) = splitChar sep p ++ splitChar sep q := by
  induction p with
  | nil => simp [splitChar]
  | cons c p ih =>
    rw [List.cons_append, splitChar, splitChar, ih]
    split
    · rfl
    · cases hp : splitChar sep p with
      | nil => exact absurd hp (splitChar_ne_nil sep p)
      | cons x xs => rfl

theorem length_splitChar (sep : Char) (cs : List Char) :
    (splitChar sep cs).length = cs.count sep + 1 := by
  induction cs with
  | nil => rfl
  | cons c cs ih =>
    rw [splitChar, List.count_cons]
    split
    · rename_i hc
      simp [ih, hc]
    · rename_i hc
      cases hs : splitChar sep cs with
      | nil => exact absurd hs (splitChar_ne_nil sep cs)
      | cons p ps =>
        rw [hs] at ih
        simpa [hc] using ih

theorem eq_of_splitChar_singleton {sep : Char} {cs p : List Char} (h : splitChar sep cs = [p]) :
    cs = p := by
  induction cs generalizing p with
  | nil => simpa [splitChar] using h
  | cons c cs ih =>
    rw [splitChar] at h
    split at h
    · simp [splitChar_ne_nil] at h
    · cases hs : splitChar sep cs with
      | nil => exact absurd hs (splitChar_ne_nil sep cs)
      | cons q qs =>
        rw [hs] at h
        obtain ⟨rfl, rfl⟩ := List.cons.inj h
        rw [ih hs]

theorem eq_of_splitChar_pair {sep : Char} {cs p q : List Char} (h : splitChar sep cs = [p, q]) :
    cs = p ++ sep :: q := by
  induction cs generalizing p with
  | nil => simp [splitChar] at h
  | cons c cs ih =>
    rw [splitChar] at h
    split at h
    case isTrue hc =>
      obtain ⟨rfl, hs⟩ := List.cons.inj h
      rw [hc, eq_of_splitChar_singleton hs]
      rfl
    case isFalse =>
      cases hs : splitChar sep cs with
      | nil => exact absurd hs (splitChar_ne_nil sep cs)
      | cons x xs =>
        rw [hs] at h
        obtain ⟨rfl, rfl⟩ := List.cons.inj h
        rw [ih hs]
        rfl

/-- A character of the text is in a part, or separates two. -/
theorem mem_splitChar {sep c : Char} {cs : List Char} (h : c ∈ cs) :
    c = sep ∨ ∃ p ∈ splitChar sep cs, c ∈ p := by
  induction cs with
  | nil => cases h
  | cons x cs ih =>
    rw [splitChar]
    by_cases hx : x = sep
    · rw [if_pos hx]
      cases List.mem_cons.mp h with
      | inl hcx => exact .inl (hcx.trans hx)
      | inr hcs =>
        refine (ih hcs).imp id fun hex => ?_
        obtain ⟨p, hp, hcp⟩ := hex
        exact ⟨p, List.mem_cons_of_mem _ hp, hcp⟩
    · rw [if_neg hx]
      cases hs : splitChar sep cs with
      | nil =>
        rw [hs] at ih
        cases List.mem_cons.mp h with
        | inl hcx => exact .inr ⟨[x], by simp, by simp [hcx]⟩
        | inr hcs => exact .inl ((ih hcs).resolve_right (by simp))
      | cons p ps =>
        rw [hs] at ih
        cases List.mem_cons.mp h with
        | inl hcx => exact .inr ⟨x :: p, by simp, by simp [hcx]⟩
        | inr hcs =>
          refine (ih hcs).imp id fun hex => ?_
          obtain ⟨q, hq, hcq⟩ := hex
          cases List.mem_cons.mp hq with
          | inl hqp => exact ⟨x :: p, by simp, by simp [← hqp, hcq]⟩
          | inr hqs => exact ⟨q, by simp [hqs], hcq⟩

theorem head?_splitChar (sep : Char) (cs : List Char) :
    (splitChar sep cs).head? = some (cs.takeWhile (· ≠ sep)) := by
  induction cs with
  | nil => rfl
  | cons c cs ih =>
    rw [splitChar]
    by_cases hc : c = sep
    · simp [hc]
    · rw [if_neg hc, List.takeWhile_cons_of_pos (by simpa using hc)]
      cases hs : splitChar sep cs with
      | nil => exact absurd hs (splitChar_ne_nil sep cs)
      | cons p ps =>
        rw [hs, List.head?_cons, Option.some.injEq] at ih
        rw [List.head?_cons, ih]

/-- A part has characters of the text only, and no separator. -/
theorem of_mem_splitChar {sep : Char} {cs p : List Char} (h : p ∈ splitChar sep cs) :
    sep ∉ p ∧ ∀ c ∈ p, c ∈ cs := by
  induction cs generalizing p with
  | nil =>
    obtain rfl : p = [] := by simpa [splitChar] using h
    simp
  | cons x cs ih =>
    have htail : ∀ q ∈ splitChar sep cs, sep ∉ q ∧ ∀ c ∈ q, c ∈ x :: cs := fun q hq =>
      ⟨(ih hq).1, fun c hc => List.mem_cons_of_mem x ((ih hq).2 c hc)⟩
    rw [splitChar] at h
    split at h
    · cases List.mem_cons.mp h with
      | inl hp => simp [hp]
      | inr hp => exact htail p hp
    · rename_i hx
      cases hs : splitChar sep cs with
      | nil => exact absurd hs (splitChar_ne_nil sep cs)
      | cons q qs =>
        rw [hs] at h htail
        cases List.mem_cons.mp h with
        | inl hp =>
          obtain ⟨hno, hin⟩ := htail q (by simp)
          refine ⟨by simp [hp, hno, Ne.symm hx], fun c hc => ?_⟩
          rw [hp] at hc
          exact (List.mem_cons.mp hc).elim (fun hcx => by simp [hcx]) (hin c)
        | inr hp => exact htail p (by simp [hp])

theorem splitChar_intercalate (sep : Char) {ps : List (List Char)} (hne : ps ≠ [])
    (h : ∀ p ∈ ps, sep ∉ p) : splitChar sep ([sep].intercalate ps) = ps := by
  induction ps with
  | nil => exact absurd rfl hne
  | cons p ps ih =>
    have hp := h p (by simp)
    cases ps with
    | nil => simpa using splitChar_of_not_mem sep p hp
    | cons q qs =>
      rw [List.intercalate_cons_cons, List.append_assoc, List.singleton_append,
        splitChar_append sep p _ hp, ih (by simp) fun x hx => h x (List.mem_cons_of_mem p hx)]

theorem intercalate_splitChar (sep : Char) (cs : List Char) :
    [sep].intercalate (splitChar sep cs) = cs := by
  induction cs with
  | nil => rfl
  | cons c cs ih =>
    rw [splitChar]
    obtain ⟨p, ps, hs⟩ := List.exists_cons_of_ne_nil (splitChar_ne_nil sep cs)
    rw [hs] at ih ⊢
    split
    · rename_i hc
      rw [List.intercalate_cons_cons, ih, hc]
      rfl
    · rw [List.intercalate_cons_cons_left, ih]

theorem infix_intercalate_of_mem {α : Type*} (sep : List α) {p : List α} {ps : List (List α)}
    (h : p ∈ ps) : p <:+: sep.intercalate ps := by
  induction ps with
  | nil => cases h
  | cons q qs ih =>
    cases qs with
    | nil =>
      obtain rfl := List.mem_singleton.mp h
      simp
    | cons x xs =>
      rw [List.intercalate_cons_cons]
      cases List.mem_cons.mp h with
      | inl hq => exact hq ▸ List.infix_append_of_infix_left List.infix_append_left
      | inr hx => exact List.infix_append_of_infix_right (ih hx)

/-- A text without the separator lies on one side of it. -/
theorem infix_append_sep {α : Type*} {w : List α} {sep : α} (hw : sep ∉ w) (hne : w ≠ []) (u v : List α) :
    w <:+: u ++ sep :: v ↔ w <:+: u ∨ w <:+: v := by
  have hbegins : ∀ l : List α, l ≠ [] → l <:+: w → ¬ l <+: sep :: v := by
    intro l hl hin hpre
    cases l with
    | nil => exact hl rfl
    | cons x l =>
      rw [List.cons_prefix_cons] at hpre
      exact hw (hpre.1 ▸ hin.subset List.mem_cons_self)
  constructor
  · intro h
    obtain hu | hv | ⟨l₁, l₂, -, hl₂, rfl, -, hpre⟩ := List.infix_append_iff_ne_nil.mp h
    · exact .inl hu
    · cases List.infix_cons_iff.mp hv with
      | inl hpre => exact absurd hpre (hbegins w hne List.infix_rfl)
      | inr hv => exact .inr hv
    · exact absurd hpre (hbegins l₂ hl₂ List.infix_append_right)
  · intro h
    cases h with
    | inl hu => exact List.infix_append_of_infix_left hu
    | inr hv => exact List.infix_append_of_infix_right (List.infix_cons hv)

theorem countP_intercalate {α : Type*} (q : α → Bool) (sep : List α) {ps : List (List α)} (hne : ps ≠ []) :
    (sep.intercalate ps).countP q = (ps.map (·.countP q)).sum + (ps.length - 1) * sep.countP q := by
  induction ps with
  | nil => exact absurd rfl hne
  | cons p ps ih =>
    cases ps with
    | nil => simp
    | cons x xs =>
      rw [List.intercalate_cons_cons, List.countP_append, List.countP_append, ih (by simp)]
      simp only [List.map_cons, List.sum_cons, List.length_cons, Nat.add_sub_cancel]
      ring

/-- The characters at which `text.splitlines()` ends a line. -/
def isLineBreak (c : Char) : Bool :=
  c ∈ ['\n', '\r', '\x0b', '\x0c', '\x1c', '\x1d', '\x1e', '\u0085', '\u2028', '\u2029']

/-- `text.splitlines()`: carriage return and line feed together end one line. -/
def splitlines : List Char → List (List Char)
  | [] => []
  | '\r' :: '\n' :: cs => [] :: splitlines cs
  | c :: cs =>
    if isLineBreak c then [] :: splitlines cs
    else match splitlines cs with
      | [] => [[c]]
      | l :: ls => (c :: l) :: ls

theorem splitlines_eq_nil_iff (cs : List Char) : splitlines cs = [] ↔ cs = [] := by
  constructor
  · intro h
    cases cs with
    | nil => rfl
    | cons c cs =>
      exfalso
      unfold splitlines at h
      split at h
      · contradiction
      · cases h
      · split at h
        · cases h
        · split at h <;> cases h
  · rintro rfl
    rfl

/-- `text.split(sep, 1)`, where that has two parts. -/
def splitOnce (sep : Char) : List Char → Option (List Char × List Char)
  | [] => none
  | c :: cs => if c = sep then some ([], cs) else (splitOnce sep cs).map fun p => (c :: p.1, p.2)

theorem splitOnce_eq_some_iff (sep : Char) (cs p q : List Char) :
    splitOnce sep cs = some (p, q) ↔ sep ∉ p ∧ cs = p ++ sep :: q := by
  induction cs generalizing p with
  | nil => simp [splitOnce]
  | cons c cs ih =>
    rw [splitOnce]
    by_cases hc : c = sep
    · rw [if_pos hc, Option.some.injEq, Prod.mk.injEq]
      cases p with
      | nil => simp [hc]
      | cons x xs =>
        simp only [List.nil_eq, reduceCtorEq, false_and, List.mem_cons, List.cons_append,
          List.cons.injEq, false_iff, not_and, not_or]
        intro hno hcx
        exact absurd (hc.symm.trans hcx) hno.1
    · rw [if_neg hc]
      cases p with
      | nil => simp [hc]
      | cons x xs =>
        simp only [Option.map_eq_some_iff, Prod.exists, Prod.mk.injEq, List.cons.injEq,
          List.mem_cons, List.cons_append, not_or]
        constructor
        · intro hex
          obtain ⟨p, q', hsplit, ⟨hcx, hp⟩, hq⟩ := hex
          subst hcx hp hq
          obtain ⟨hno, hcs⟩ := (ih p).mp hsplit
          exact ⟨⟨Ne.symm hc, hno⟩, rfl, hcs⟩
        · intro hfacts
          obtain ⟨⟨-, hno⟩, hcx, hcs⟩ := hfacts
          exact ⟨xs, q, (ih xs).mpr ⟨hno, hcs⟩, ⟨hcx, rfl⟩, rfl⟩

theorem splitOnce_append (sep : Char) (p q : List Char) (h : sep ∉ p) :
    splitOnce sep (p ++ sep :: q) = some (p, q) :=
  (splitOnce_eq_some_iff sep _ p q).mpr ⟨h, rfl⟩

/-- The first part of a text with a separator at its end is what stands before any separator. -/
theorem splitOnce_fst_append (sep : Char) (p q : List Char) :
    (splitOnce sep (p ++ sep :: q)).map Prod.fst = some (p.takeWhile (· ≠ sep)) := by
  induction p with
  | nil => simp [splitOnce]
  | cons c p ih =>
    by_cases hc : c = sep
    · simp [splitOnce, hc]
    · rw [List.cons_append, splitOnce, if_neg hc, Option.map_map,
        List.takeWhile_cons_of_pos (by simpa using hc)]
      have hcons := congrArg (Option.map (List.cons c)) ih
      rwa [Option.map_map] at hcons

theorem not_mem_toDigits {n : Nat} {c : Char} (hc : c.isDigit = false) : c ∉ Nat.toDigits 10 n := by
  intro h
  rw [Nat.isDigit_of_mem_toDigits (by decide) (by decide) h] at hc
  cases hc

theorem toString_nat_injective {i j : Nat} (h : toString i = toString j) : i = j := by
  have hdigits : Nat.toDigits 10 i = Nat.toDigits 10 j := by
    have htext := congrArg String.toList h
    simpa using htext
  rw [← Nat.ofDigitChars_ten_toDigits (n := i), hdigits, Nat.ofDigitChars_ten_toDigits]

theorem filter_key_eq_singleton {β κ : Type*} [DecidableEq κ] (key : β → κ) (l : List β)
    (hn : (l.map key).Nodup) (b : β) (hb : b ∈ l) : l.filter (key · = key b) = [b] := by
  induction l with
  | nil => simp at hb
  | cons x xs ih =>
    have hnx := List.nodup_cons.mp (by simpa using hn : (key x :: xs.map key).Nodup)
    by_cases hx : key x = key b
    · have hxb : b = x := by
        cases List.mem_cons.mp hb with
        | inl h => exact h
        | inr h => exact absurd (hx ▸ List.mem_map_of_mem h) hnx.1
      have hno : xs.filter (key · = key b) = [] := by
        rw [List.filter_eq_nil_iff]
        intro y hy he
        have hyb : key y = key b := by simpa using he
        exact hnx.1 (hx ▸ hyb ▸ List.mem_map_of_mem hy)
      simp [hxb ▸ hno, hxb]
    · have hbx : b ∈ xs := (List.mem_cons.mp hb).resolve_left fun h => hx (h ▸ rfl)
      simp [hx, ih hnx.2 hbx]

/-- Texts are the same after a substitution of one character for some, where they differ only in
those. -/
theorem map_ite_eq_iff (p : Char → Prop) [DecidablePred p] (r : Char) (cs ds : List Char) :
    cs.map (fun c => if p c then r else c) = ds.map (fun c => if p c then r else c) ↔
      List.Forall₂ (fun c d => c = d ∨ ((p c ∨ c = r) ∧ (p d ∨ d = r))) cs ds := by
  rw [← List.forall₂_eq_eq_eq, List.forall₂_map_left_iff, List.forall₂_map_right_iff]
  refine iff_of_eq (congrArg (List.Forall₂ · cs ds) ?_)
  funext c d
  grind

namespace String
variable {β : Type*}

/-- A loop that prints something under a condition prints for the elements that meet it. -/
theorem join_map_if (c : β → Bool) (v : β → String) (l : List β) :
    join (l.map fun b => if c b then v b else "") = join ((l.filter c).map v) := by
  induction l with
  | nil => rfl
  | cons b l ih => by_cases hb : c b = true <;> simp [hb, ih]

/-- A loop that prints something more under `loop.last`. -/
theorem join_zipIdx_last (f : β × Nat → String) (last : String) (l : List β) (k : Nat)
    (hl : l ≠ []) :
    join ((l.zipIdx k).map fun p => f p ++ if p.2 + 1 = k + l.length then last else "") =
      join ((l.zipIdx k).map f) ++ last := by
  induction l generalizing k with
  | nil => exact absurd rfl hl
  | cons b l ih =>
    by_cases ht : l = []
    · subst ht
      simp
    · have hs : k + (l.length + 1) = (k + 1) + l.length := by omega
      have hk : k + 1 ≠ (k + 1) + l.length := by
        have hp : 0 < l.length := List.length_pos_iff.mpr ht
        omega
      have h := ih (k + 1) ht
      simp only [List.zipIdx_cons, List.map_cons, join_cons, List.length_cons, hs, if_neg hk,
        String.append_empty, h, String.append_assoc]

/-- A loop that prints a separator unless `loop.last`. -/
theorem join_zipIdx_sep (f : β × Nat → String) (sep : String) (l : List β) (k : Nat) :
    join ((l.zipIdx k).map fun p => f p ++ if p.2 + 1 ≠ k + l.length then sep else "") =
      sep.intercalate ((l.zipIdx k).map f) := by
  induction l generalizing k with
  | nil => rfl
  | cons b l ih =>
    cases l with
    | nil => simp
    | cons c l =>
      have hs : k + (l.length + 1 + 1) = (k + 1) + (l.length + 1) := by omega
      have hk : k + 1 ≠ (k + 1) + (l.length + 1) := by omega
      have h := ih (k + 1)
      simp only [List.zipIdx_cons, List.map_cons, join_cons, List.length_cons, hs, if_pos hk,
        intercalate_cons_cons] at h ⊢
      rw [h, String.append_assoc]

/-- Items that each end in the separator, then a last item. -/
theorem intercalate_append_singleton (sep : String) (l : List String) (last : String) :
    sep.intercalate (l ++ [last]) = join (l.map (· ++ sep)) ++ last := by
  induction l with
  | nil => simp
  | cons a l ih =>
    cases l with
    | nil => simp
    | cons b l =>
      rw [List.cons_append, List.cons_append, intercalate_cons_cons, ← List.cons_append, ih]
      simp only [List.map_cons, join_cons, String.append_assoc]

end String

import Mathlib.Data.List.Sort
import Mathlib.Data.List.Lex
import Mathlib.Data.List.Nodup
import Mathlib.Algebra.Field.Rat

/-! The lines of a listing: `sort -n`, `head -n -k`, and names with numbers of a fixed width, which
stand in the order of the numbers. -/
namespace Listing

/-- What `sort -n` reads at the beginning of a line. -/
def numericValue (line : List Char) : Rat :=
  let cs := line.dropWhile fun c => c = ' ' ∨ c = '\t'
  let sign : Rat := if cs.head? = some '-' then -1 else 1
  let cs := if cs.head? = some '-' then cs.tail else cs
  let whole := cs.takeWhile Char.isDigit
  let rest := cs.dropWhile Char.isDigit
  let fraction := if rest.head? = some '.' then rest.tail.takeWhile Char.isDigit else []
  sign * (Nat.ofDigitChars 10 whole 0 + Nat.ofDigitChars 10 fraction 0 / 10 ^ fraction.length)

/-- Lines of one value are compared as texts. -/
def SortsBefore (a b : List Char) : Prop :=
  numericValue a < numericValue b ∨ (numericValue a = numericValue b ∧ ¬ b < a)

instance : DecidableRel SortsBefore := fun a b =>
  inferInstanceAs (Decidable (numericValue a < numericValue b ∨ (numericValue a = numericValue b ∧ ¬ b < a)))

def sortNumeric (lines : List (List Char)) : List (List Char) := lines.insertionSort SortsBefore

/-- `head -n -k` -/
def headBut {α : Type*} (k : Nat) (lines : List α) : List α := lines.take (lines.length - k)

/-- A path of find has no value of its own. -/
theorem numericValue_path (cs : List Char) : numericValue ('.' :: '/' :: cs) = 0 := by
  simp [numericValue, Nat.ofDigitChars]

theorem sortNumeric_of_pairwise {lines : List (List Char)} (h : lines.Pairwise SortsBefore) :
    sortNumeric lines = lines := h.insertionSort_eq

/-- Removing the first of the lines leaves the others, in their order. -/
theorem filter_not_mem_take {α : Type*} [DecidableEq α] (k : Nat) {l : List α} (hl : l.Nodup) :
    l.filter (· ∉ l.take k) = l.drop k := by
  induction l generalizing k with
  | nil => simp
  | cons x xs ih =>
    cases k with
    | zero => simp
    | succ k =>
      obtain ⟨hx, hxs⟩ := List.nodup_cons.mp hl
      rw [List.take_succ_cons, List.drop_succ_cons, ← ih k hxs, List.filter_cons_of_neg (by simp)]
      refine List.filter_congr fun y hy => ?_
      have hne : y ≠ x := fun he => hx (he ▸ hy)
      simp [hne]

section FixedWidth

theorem append_lt_append {a b : List Char} (h : a < b) (hlen : a.length = b.length) (c d : List Char) :
    a ++ c < b ++ d := by
  induction a generalizing b with
  | nil =>
    obtain rfl := List.length_eq_zero_iff.mp hlen.symm
    exact absurd h (List.lt_irrefl [])
  | cons x a ih =>
    obtain ⟨y, b, rfl⟩ := List.exists_cons_of_length_eq_add_one hlen.symm
    rw [List.cons_append, List.cons_append, List.cons_lt_cons_iff]
    obtain hlt | ⟨rfl, hlt⟩ := List.cons_lt_cons_iff.mp h
    · exact .inl hlt
    · exact .inr ⟨rfl, ih hlt (by simpa using hlen)⟩

/-- The last `w` digits of a number. -/
def padded : (w n : Nat) → List Char
  | 0, _ => []
  | w + 1, n => padded w (n / 10) ++ [Nat.digitChar (n % 10)]

@[simp] theorem length_padded (w n : Nat) : (padded w n).length = w := by
  induction w generalizing n with
  | zero => rfl
  | succ w ih => simp [padded, ih]

theorem digitChar_lt {i j : Nat} (hij : i < j) (hj : j < 10) : Nat.digitChar i < Nat.digitChar j := by
  have hall : ∀ j : Fin 10, ∀ i : Fin j, Nat.digitChar i < Nat.digitChar j := by decide
  exact hall ⟨j, hj⟩ ⟨i, hij⟩

theorem padded_lt {w n m : Nat} (hnm : n < m) (hm : m < 10 ^ w) : padded w n < padded w m := by
  induction w generalizing n m with
  | zero => omega
  | succ w ih =>
    rw [padded, padded]
    by_cases htens : n / 10 < m / 10
    · have hbound : m / 10 < 10 ^ w := Nat.div_lt_of_lt_mul (by rwa [Nat.pow_succ'] at hm)
      exact append_lt_append (ih htens hbound) (by simp) _ _
    · have heq : n / 10 = m / 10 := by omega
      rw [heq]
      refine List.append_left_lt (List.cons_lt_cons_iff.mpr (.inl (digitChar_lt ?_ ?_)))
      · omega
      · omega

/-- Numbers of the given widths, each behind a separator. -/
def render : List (List Char × Nat) → List Nat → List Char
  | (sep, w) :: shape, n :: ns => sep ++ (padded w n ++ render shape ns)
  | _, _ => []

def Fits (shape : List (List Char × Nat)) (ns : List Nat) : Prop :=
  List.Forall₂ (fun f n => n < 10 ^ f.2) shape ns

/-- The texts stand in the order of the numbers. -/
theorem render_lt {shape : List (List Char × Nat)} {ns ms : List Nat} (h : ns < ms)
    (hns : Fits shape ns) (hms : Fits shape ms) : render shape ns < render shape ms := by
  induction shape generalizing ns ms with
  | nil =>
    cases hns
    cases hms
    exact absurd h (List.lt_irrefl [])
  | cons f shape ih =>
    cases hns with
    | cons hn hns =>
      cases hms with
      | cons hm hms =>
        rw [render, render]
        refine List.append_left_lt ?_
        obtain hlt | ⟨rfl, hlt⟩ := List.cons_lt_cons_iff.mp h
        · exact append_lt_append (padded_lt hlt hm) (by simp) _ _
        · exact List.append_left_lt (ih hlt hns hms)

end FixedWidth

end Listing

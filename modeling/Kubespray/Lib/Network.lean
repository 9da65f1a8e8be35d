import Kubespray.Lib.IpAddress
import Mathlib.Data.Set.Lattice
import Mathlib.Order.CompletePartialOrder

/-! Networks of IPv4 addresses. Two of them are nested, or they have no address in common. -/

section Blocks

/-- The numbers that agree with `a` above the last `k` binary digits. -/
def block (k a : Nat) : Set Nat := {x | x / 2 ^ k = a / 2 ^ k}

variable {j k a b x : Nat}

theorem mem_block : x ∈ block k a ↔ x / 2 ^ k = a / 2 ^ k := Iff.rfl

theorem block_eq_of_mem (h : x ∈ block k a) : block k x = block k a := by
  ext y
  rw [mem_block, mem_block, mem_block.mp h]

theorem block_subset_of_le (h : k ≤ j) : block k a ⊆ block j a := by
  intro x hx
  have hpow : 2 ^ j = 2 ^ k * 2 ^ (j - k) := by rw [← Nat.pow_add, Nat.add_sub_of_le h]
  rw [mem_block, hpow, ← Nat.div_div_eq_div_mul, ← Nat.div_div_eq_div_mul, mem_block.mp hx]

theorem block_subset_or_disjoint (h : k ≤ j) (a b : Nat) :
    block k a ⊆ block j b ∨ Disjoint (block k a) (block j b) := by
  by_cases hab : a ∈ block j b
  · left
    rw [← block_eq_of_mem hab]
    exact block_subset_of_le h
  · right
    refine Set.disjoint_left.mpr fun x hx hxb => hab ?_
    have hxa : x ∈ block j a := block_subset_of_le h hx
    exact (mem_block.mp hxa).symm.trans hxb

/-- A block within a smaller one would have both halves there. -/
theorem le_of_block_subset {n : Nat} (hk : k ≤ n) (ha : a < 2 ^ n)
    (h : ∀ x < 2 ^ n, x ∈ block k a → x ∈ block j b) : k ≤ j := by
  by_contra hlt
  have hpos : 0 < 2 ^ j := Nat.two_pow_pos j
  have hjk : 2 ^ j < 2 ^ k := Nat.pow_lt_pow_right (by decide) (by omega)
  have hn : 2 ^ n = 2 ^ k * 2 ^ (n - k) := by rw [← Nat.pow_add, Nat.add_sub_of_le hk]
  have hq : a / 2 ^ k < 2 ^ (n - k) := Nat.div_lt_of_lt_mul (hn ▸ ha)
  have hend : 2 ^ k * (a / 2 ^ k) + 2 ^ k ≤ 2 ^ n := by
    rw [hn, ← Nat.mul_succ]
    exact Nat.mul_le_mul_left _ hq
  have hlow := h (2 ^ k * (a / 2 ^ k)) (by omega) (by
    rw [mem_block, Nat.mul_div_cancel_left _ (by omega)])
  have hhigh := h (2 ^ k * (a / 2 ^ k) + 2 ^ j) (by omega) (by
    rw [mem_block, Nat.mul_add_div (by omega), Nat.div_eq_of_lt hjk, Nat.add_zero])
  have hsame := (mem_block.mp hhigh).trans (mem_block.mp hlow).symm
  rw [Nat.add_div_right _ hpos] at hsame
  omega

end Blocks

/-- An address with the length of its prefix. -/
structure Cidr where
  address : IPv4
  prefixLen : Fin 33
  deriving DecidableEq

namespace Cidr
variable (c d : Cidr)

def hostBits : Nat := 32 - c.prefixLen

/-- The addresses with the same prefix. -/
def network : Set IPv4 := {a | a.val.val ∈ block c.hostBits c.address.val}

/-- The address has no bits behind the prefix. -/
def IsNetwork : Prop := 2 ^ c.hostBits ∣ c.address.val.val

instance : Decidable c.IsNetwork := inferInstanceAs (Decidable (_ ∣ _))

theorem address_mem : c.address ∈ c.network := mem_block.mpr rfl

theorem hostBits_le_iff : c.hostBits ≤ d.hostBits ↔ d.prefixLen ≤ c.prefixLen := by
  have hc := c.prefixLen.isLt
  have hd := d.prefixLen.isLt
  rw [hostBits, hostBits, Fin.le_def]
  omega

variable {c d}

theorem subset_or_disjoint (h : c.hostBits ≤ d.hostBits) :
    c.network ⊆ d.network ∨ Disjoint c.network d.network := by
  cases block_subset_or_disjoint h c.address.val d.address.val with
  | inl hsub => exact .inl fun _ ha => hsub ha
  | inr hdis => exact .inr (Set.disjoint_left.mpr fun _ ha hb => Set.disjoint_left.mp hdis ha hb)

theorem not_disjoint_of_subset (h : c.network ⊆ d.network) : ¬ Disjoint c.network d.network :=
  fun hdis => Set.disjoint_left.mp hdis c.address_mem (h c.address_mem)

/-- Networks are apart when neither lies in the other. -/
theorem disjoint_iff : Disjoint c.network d.network ↔
    ¬ c.network ⊆ d.network ∧ ¬ d.network ⊆ c.network := by
  constructor
  · exact fun h => ⟨fun hcd => not_disjoint_of_subset hcd h,
      fun hdc => not_disjoint_of_subset hdc h.symm⟩
  · rintro ⟨hcd, hdc⟩
    cases Nat.le_total c.hostBits d.hostBits with
    | inl h => exact (subset_or_disjoint h).resolve_left hcd
    | inr h => exact ((subset_or_disjoint h).resolve_left hdc).symm

theorem subset_iff : c.network ⊆ d.network ↔
    d.prefixLen ≤ c.prefixLen ∧ c.address ∈ d.network := by
  constructor
  · intro h
    refine ⟨(hostBits_le_iff c d).mp ?_, h c.address_mem⟩
    exact le_of_block_subset (Nat.sub_le 32 _) c.address.val.isLt
      fun x hx hxc => h (show ⟨⟨x, hx⟩⟩ ∈ c.network from hxc)
  · rintro ⟨hlen, hmem⟩ a ha
    have hin := block_subset_of_le ((hostBits_le_iff c d).mpr hlen) ha
    rw [block_eq_of_mem hmem] at hin
    exact hin

theorem ssubset_iff : c.network ⊂ d.network ↔
    d.prefixLen < c.prefixLen ∧ c.address ∈ d.network := by
  rw [ssubset_iff_subset_not_subset, subset_iff, subset_iff]
  constructor
  · rintro ⟨⟨hlen, hmem⟩, hno⟩
    refine ⟨Fin.not_le.mp fun hle => hno ⟨hle, ?_⟩, hmem⟩
    have hbits := Nat.le_antisymm ((hostBits_le_iff c d).mpr hlen) ((hostBits_le_iff d c).mpr hle)
    exact mem_block.mpr (hbits ▸ (mem_block.mp hmem).symm)
  · rintro ⟨hlt, hmem⟩
    exact ⟨⟨Fin.le_of_lt hlt, hmem⟩, fun h => Fin.not_le.mpr hlt h.1⟩

instance : Decidable (c.network ⊆ d.network) :=
  decidable_of_iff (d.prefixLen ≤ c.prefixLen ∧
    c.address.val.val / 2 ^ d.hostBits = d.address.val.val / 2 ^ d.hostBits) subset_iff.symm

section Text

/-- The address, a slash and the length. -/
def text (c : Cidr) : String := c.address.exploded ++ "/" ++ toString c.prefixLen.val

def readLength (cs : List Char) : Option (Fin 33) :=
  if cs = [] then none
  else do
    let n ← readDigits decimalDigit 10 cs
    if h : n < 33 then some ⟨n, h⟩ else none

def read (cs : List Char) : Option Cidr := do
  let p ← splitOnce '/' cs
  return ⟨← IPv4.read p.1, ← readLength p.2⟩

theorem readLength_toDigits : ∀ n : Fin 33, readLength (Nat.toDigits 10 n) = some n := by
  decide

theorem slash_not_mem (a : IPv4) : '/' ∉ a.exploded.toList := by
  intro h
  cases a.exploded_chars _ h with
  | inl hdigit => cases hdigit
  | inr hdot => cases hdot

theorem text_ne (c : Cidr) {s : String} (h : '/' ∉ s.toList) : c.text ≠ s := by
  intro heq
  apply h
  rw [← heq, text, String.toList_append, String.toList_append]
  simp

theorem read_text (c : Cidr) : read c.text.toList = some c := by
  have hsplit : splitOnce '/' c.text.toList =
      some (c.address.exploded.toList, Nat.toDigits 10 c.prefixLen) := by
    have htext : c.text.toList = c.address.exploded.toList ++ '/' :: Nat.toDigits 10 c.prefixLen := by
      simp [text]
    rw [htext, splitOnce_append '/' _ _ (slash_not_mem c.address)]
  rw [read, hsplit]
  simp [IPv4.read_exploded, readLength_toDigits]

end Text

end Cidr

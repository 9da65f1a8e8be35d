import Kubespray.Lib.Text
import Mathlib.Algebra.Group.Nat.Even

/-! Python's `ipaddress` module, over ASCII text: reading an IPv4 or IPv6 address,
its integer, and its exploded text. -/

def decimalDigit (c : Char) : Option Nat := if c.isDigit then some (c.toNat - 48) else none

def hexDigit (c : Char) : Option Nat :=
  if c.isDigit then some (c.toNat - 48)
  else if 'a' ≤ c ∧ c ≤ 'f' then some (c.toNat - 87)
  else if 'A' ≤ c ∧ c ≤ 'F' then some (c.toNat - 55)
  else none

def readDigits (digit : Char → Option Nat) (base : Nat) (cs : List Char) : Option Nat :=
  cs.foldlM (fun n c => (digit c).map (base * n + ·)) 0

/-- The characters of an address text. -/
def addressChar (c : Char) : Bool := (hexDigit c).isSome || c = '.' || c = ':'

theorem addressChar_toNat {c : Char} (h : addressChar c = true) : 46 ≤ c.toNat ∧ c.toNat ≤ 102 := by
  rw [addressChar, Bool.or_eq_true, Bool.or_eq_true, decide_eq_true_eq, decide_eq_true_eq] at h
  rcases h with (h | rfl) | rfl
  · rw [hexDigit] at h
    split at h
    · rename_i hd
      have hd' := Char.isDigit_iff_toNat.mp hd
      simp at hd'
      omega
    split at h
    · rename_i hd
      obtain ⟨h1, h2⟩ := hd
      have h1' : 'a'.toNat ≤ c.toNat := h1
      have h2' : c.toNat ≤ 'f'.toNat := h2
      simp at h1' h2'
      omega
    split at h
    · rename_i hd
      obtain ⟨h1, h2⟩ := hd
      have h1' : 'A'.toNat ≤ c.toNat := h1
      have h2' : c.toNat ≤ 'F'.toNat := h2
      simp at h1' h2'
      omega
    · cases h
  · decide
  · decide

theorem readDigits_chars {digit : Char → Option Nat} {base : Nat} {cs : List Char}
    (h : (readDigits digit base cs).isSome) : ∀ c ∈ cs, (digit c).isSome := by
  have hall : ∀ n, (cs.foldlM (fun n c => (digit c).map (base * n + ·)) n).isSome →
      ∀ c ∈ cs, (digit c).isSome := by
    clear h
    induction cs with
    | nil => simp
    | cons x cs ih =>
      intro n hn
      rw [List.foldlM_cons] at hn
      cases hx : digit x with
      | none => simp [hx] at hn
      | some d =>
        rw [hx, Option.map_some] at hn
        exact List.forall_mem_cons.mpr ⟨by rw [hx]; rfl, ih _ hn⟩
  exact hall 0 h

theorem decimalDigit_addressChar {c : Char} (h : (decimalDigit c).isSome) : addressChar c = true := by
  have hd : c.isDigit = true := by
    by_contra hno
    simp [decimalDigit, hno] at h
  simp [addressChar, hexDigit, hd]

structure IPv4 where
  val : Fin (2 ^ 32)
  deriving DecidableEq

structure IPv6 where
  val : Fin (2 ^ 128)
  deriving DecidableEq

namespace IPv4

def ofOctets (a b c d : UInt8) : IPv4 :=
  ⟨⟨((a.toNat * 256 + b.toNat) * 256 + c.toNat) * 256 + d.toNat, by
    have ha := a.toNat_lt
    have hb := b.toNat_lt
    have hc := c.toNat_lt
    have hd := d.toNat_lt
    omega⟩⟩

def octets (a : IPv4) : List Nat :=
  [a.val / 2 ^ 24, a.val / 2 ^ 16 % 256, a.val / 2 ^ 8 % 256, a.val % 256]

/-- The dotted text of the address. -/
def exploded (a : IPv4) : String := ".".intercalate (a.octets.map toString)

def readOctet (cs : List Char) : Option UInt8 :=
  if cs = [] ∨ 3 < cs.length ∨ (cs.head? = some '0' ∧ 1 < cs.length) then none
  else do
    let n ← readDigits decimalDigit 10 cs
    if n < 256 then some (UInt8.ofNat n) else none

def read (cs : List Char) : Option IPv4 :=
  match splitChar '.' cs with
  | [a, b, c, d] => do
    return ofOctets (← readOctet a) (← readOctet b) (← readOctet c) (← readOctet d)
  | _ => none

theorem exploded_toList (a : IPv4) : a.exploded.toList =
    Nat.toDigits 10 (a.val / 2 ^ 24) ++ '.' :: (Nat.toDigits 10 (a.val / 2 ^ 16 % 256) ++
      '.' :: (Nat.toDigits 10 (a.val / 2 ^ 8 % 256) ++ '.' :: Nat.toDigits 10 (a.val % 256))) := by
  simp [exploded, octets, String.intercalate_cons_cons]

theorem readOctet_toDigits (n : Nat) (h : n < 256) :
    readOctet (Nat.toDigits 10 n) = some (UInt8.ofNat n) := by
  have hall : ∀ n : Fin 256, readOctet (Nat.toDigits 10 n) = some (UInt8.ofNat n) := by
    decide +kernel
  exact hall ⟨n, h⟩

theorem read_exploded (a : IPv4) : read a.exploded.toList = some a := by
  have hdot : ∀ n, '.' ∉ Nat.toDigits 10 n := fun n => not_mem_toDigits (by decide)
  have ha := a.val.isLt
  rw [exploded_toList, read, splitChar_append _ _ _ (hdot _), splitChar_append _ _ _ (hdot _),
    splitChar_append _ _ _ (hdot _), splitChar_of_not_mem _ _ (hdot _)]
  simp only [readOctet_toDigits _ (show (a.val : Nat) / 2 ^ 24 < 256 by omega),
    readOctet_toDigits _ (Nat.mod_lt _ (by decide : 256 > 0))]
  refine congrArg some ?_
  obtain ⟨n, hn⟩ := a
  simp only [ofOctets, mk.injEq, Fin.mk.injEq, UInt8.toNat_ofNat']
  omega

theorem exploded_injective : Function.Injective exploded := by
  intro a b h
  have hab := read_exploded b
  rw [← h, read_exploded] at hab
  exact Option.some.inj hab

/-- The text is made of digits and dots, and starts with a digit. -/
theorem exploded_chars (a : IPv4) : ∀ c ∈ a.exploded.toList, c.isDigit = true ∨ c = '.' := by
  intro c hc
  have hdigit : ∀ n, c ∈ Nat.toDigits 10 n → c.isDigit = true ∨ c = '.' := fun n h =>
    .inl (Nat.isDigit_of_mem_toDigits (by decide) (by decide) h)
  simp only [exploded_toList, List.mem_append, List.mem_cons] at hc
  rcases hc with h | rfl | h | rfl | h | rfl | h
  · exact hdigit _ h
  · exact .inr rfl
  · exact hdigit _ h
  · exact .inr rfl
  · exact hdigit _ h
  · exact .inr rfl
  · exact hdigit _ h

theorem exploded_cons (a : IPv4) : ∃ c cs, a.exploded.toList = c :: cs ∧ c.isDigit = true := by
  obtain ⟨c, cs, hc⟩ := List.exists_cons_of_ne_nil
    (Nat.toDigits_ne_nil (n := a.val / 2 ^ 24) (b := 10))
  refine ⟨c, _, by rw [exploded_toList, hc, List.cons_append], ?_⟩
  exact Nat.isDigit_of_mem_toDigits (by decide) (by decide) (hc ▸ List.mem_cons_self)

theorem dot_mem_exploded (a : IPv4) : '.' ∈ a.exploded.toList := by
  rw [exploded_toList]
  simp

theorem readOctet_chars {cs : List Char} {n : UInt8} (h : readOctet cs = some n) :
    ∀ c ∈ cs, addressChar c = true := by
  rw [readOctet] at h
  split at h
  · cases h
  · obtain ⟨m, hm, -⟩ := Option.bind_eq_some_iff.mp h
    exact fun c hc => decimalDigit_addressChar (readDigits_chars (by rw [hm]; rfl) c hc)

theorem read_chars {cs : List Char} {a : IPv4} (h : read cs = some a) :
    ∀ c ∈ cs, addressChar c = true := by
  rw [read] at h
  split at h
  case h_2 => cases h
  case h_1 p q r s hsplit =>
    obtain ⟨np, hp, h⟩ := Option.bind_eq_some_iff.mp h
    obtain ⟨nq, hq, h⟩ := Option.bind_eq_some_iff.mp h
    obtain ⟨nr, hr, h⟩ := Option.bind_eq_some_iff.mp h
    obtain ⟨ns, hs, h⟩ := Option.bind_eq_some_iff.mp h
    intro c hc
    have hpart : c = '.' ∨ ∃ p ∈ splitChar '.' cs, c ∈ p := mem_splitChar hc
    cases hpart with
    | inl hdot => simp [addressChar, hdot]
    | inr hex =>
      obtain ⟨part, hpart, hcp⟩ := hex
      rw [hsplit] at hpart
      simp only [List.mem_cons, List.not_mem_nil, or_false] at hpart
      rcases hpart with rfl | rfl | rfl | rfl
      · exact readOctet_chars hp c hcp
      · exact readOctet_chars hq c hcp
      · exact readOctet_chars hr c hcp
      · exact readOctet_chars hs c hcp

end IPv4

namespace IPv6

def hexDigits (width n : Nat) : List Char :=
  let ds := Nat.toDigits 16 n
  List.replicate (width - ds.length) '0' ++ ds

/-- Eight groups of four hexadecimal digits. -/
def exploded (a : IPv6) : String :=
  ":".intercalate ((List.range 8).map fun i =>
    String.ofList (hexDigits 4 (a.val / 2 ^ (16 * (7 - i)) % 2 ^ 16)))

def readHextet (cs : List Char) : Option Nat :=
  if cs = [] ∨ 4 < cs.length then none else readDigits hexDigit 16 cs

def readHextets (parts : List (List Char)) (start : Nat) : Option Nat :=
  parts.foldlM (fun n p => (readHextet p).map (n * 2 ^ 16 + ·)) start

/-- A dotted last part stands for two hextets. -/
def expandDotted (parts : List (List Char)) : Option (List (List Char)) :=
  match parts.getLast? with
  | some last =>
    if '.' ∈ last then do
      let a ← IPv4.read last
      return parts.dropLast ++ [Nat.toDigits 16 (a.val / 2 ^ 16), Nat.toDigits 16 (a.val % 2 ^ 16)]
    else some parts
  | none => none

/-- The empty parts that are neither first nor last: where `::` stands. -/
def skipIndices (parts : List (List Char)) : List Nat :=
  (List.range parts.length).filter fun i =>
    0 < i ∧ i + 1 < parts.length ∧ parts[i]? = some []

def read (cs : List Char) : Option IPv6 := do
  let parts := splitChar ':' cs
  if parts.length < 3 then none
  let parts ← expandDotted parts
  if 9 < parts.length then none
  let emptyHead := parts.head? = some []
  let emptyLast := parts.getLast? = some []
  let n ← match skipIndices parts with
    | [] =>
      if parts.length ≠ 8 ∨ emptyHead ∨ emptyLast then none
      else readHextets parts 0
    | [skip] =>
      let hi := if emptyHead then skip - 1 else skip
      let lo := parts.length - skip - 1 - (if emptyLast then 1 else 0)
      if (emptyHead ∧ hi ≠ 0) ∨ (emptyLast ∧ lo ≠ 0) ∨ 8 < hi + lo + 1 then none
      else do
        let n ← readHextets (parts.take hi) 0
        readHextets (parts.drop (parts.length - lo)) (n * 2 ^ (16 * (8 - (hi + lo))))
    | _ => none
  if h : n < 2 ^ 128 then some ⟨⟨n, h⟩⟩ else none

theorem readHextets_chars {parts : List (List Char)} {start n : Nat}
    (h : readHextets parts start = some n) : ∀ p ∈ parts, ∀ c ∈ p, addressChar c = true := by
  induction parts generalizing start with
  | nil => simp
  | cons p parts ih =>
    rw [readHextets, List.foldlM_cons] at h
    obtain ⟨m, hm, hrest⟩ := Option.bind_eq_some_iff.mp h
    refine List.forall_mem_cons.mpr ⟨fun c hc => ?_, ih hrest⟩
    obtain ⟨k, hk, -⟩ := Option.map_eq_some_iff.mp hm
    rw [readHextet] at hk
    split at hk
    · cases hk
    · have hsome := readDigits_chars (by rw [hk]; rfl) c hc
      simp [addressChar, hsome]

theorem expandDotted_chars {parts parts' : List (List Char)}
    (h : expandDotted parts = some parts') {p : List Char} (hp : p ∈ parts) :
    p ∈ parts' ∨ ∀ c ∈ p, addressChar c = true := by
  rw [expandDotted] at h
  split at h
  case h_2 => cases h
  case h_1 last hlast =>
    split at h
    · obtain ⟨a, ha, h⟩ := Option.bind_eq_some_iff.mp h
      obtain rfl := Option.some.inj h
      have hcut := List.dropLast_append_getLast? last hlast
      rw [← hcut, List.mem_append] at hp
      cases hp with
      | inl hin => exact .inl (List.mem_append_left _ hin)
      | inr heq =>
        obtain rfl := List.mem_singleton.mp heq
        exact .inr (IPv4.read_chars ha)
    · obtain rfl := Option.some.inj h
      exact .inl hp

/-- The parts that the two halves around `::` leave out are empty. -/
theorem mem_halves {parts : List (List Char)} {skip hi lo : Nat}
    (hskip : parts[skip]? = some []) (hlen : skip + 1 < parts.length)
    (hhi : hi = skip ∨ (hi + 1 = skip ∧ hi = 0 ∧ parts.head? = some []))
    (hlo : lo + (skip + 1) = parts.length ∨
      (lo = 0 ∧ skip + 2 = parts.length ∧ parts.getLast? = some []))
    {p : List Char} (hp : p ∈ parts) :
    p = [] ∨ p ∈ parts.take hi ∨ p ∈ parts.drop (parts.length - lo) := by
  obtain ⟨i, hi', rfl⟩ := List.getElem_of_mem hp
  by_cases h1 : i < hi
  · exact .inr (.inl (List.mem_take_iff_getElem.mpr ⟨i, by omega, rfl⟩))
  by_cases h2 : parts.length - lo ≤ i
  · refine .inr (.inr (List.mem_drop_iff_getElem.mpr ⟨i - (parts.length - lo), by omega, ?_⟩))
    congr 1
    omega
  refine .inl ?_
  by_cases hmid : i = skip
  · subst hmid
    exact Option.some.inj ((List.getElem?_eq_getElem hi').symm.trans hskip)
  by_cases hleft : i < skip
  · -- Before the gap only an empty first part is left out.
    obtain ⟨-, -, hhead⟩ := hhi.resolve_left (by omega)
    obtain rfl : i = 0 := by omega
    rw [List.head?_eq_getElem?, List.getElem?_eq_getElem hi'] at hhead
    exact Option.some.inj hhead
  · obtain ⟨-, -, hlast⟩ := hlo.resolve_left (by omega)
    obtain rfl : i = parts.length - 1 := by omega
    rw [List.getLast?_eq_getElem?, List.getElem?_eq_getElem hi'] at hlast
    exact Option.some.inj hlast

/-- Around `::` the two halves that read leave out only empty parts. -/
theorem gap_chars {parts : List (List Char)} {skip hi lo n m k : Nat}
    (hmem : skip ∈ skipIndices parts)
    (hhi : hi = if parts.head? = some [] then skip - 1 else skip)
    (hlo : lo = parts.length - skip - 1 - if parts.getLast? = some [] then 1 else 0)
    (hhead : ¬ (parts.head? = some [] ∧ hi ≠ 0)) (hlast : ¬ (parts.getLast? = some [] ∧ lo ≠ 0))
    (hn : readHextets (parts.take hi) 0 = some n)
    (hm : readHextets (parts.drop (parts.length - lo)) k = some m) :
    ∀ p ∈ parts, ∀ c ∈ p, addressChar c = true := by
  simp only [skipIndices, List.mem_filter, List.mem_range, decide_eq_true_eq] at hmem
  obtain ⟨-, hpos, hlen, hskip⟩ := hmem
  have hleft : hi = skip ∨ (hi + 1 = skip ∧ hi = 0 ∧ parts.head? = some []) := by
    by_cases hE : parts.head? = some []
    · rw [if_pos hE] at hhi
      have hzero : hi = 0 := not_not.mp fun hne => hhead ⟨hE, hne⟩
      exact .inr ⟨by omega, hzero, hE⟩
    · exact .inl (by rw [hhi, if_neg hE])
  have hright : lo + (skip + 1) = parts.length ∨
      (lo = 0 ∧ skip + 2 = parts.length ∧ parts.getLast? = some []) := by
    by_cases hE : parts.getLast? = some []
    · rw [if_pos hE] at hlo
      have hzero : lo = 0 := not_not.mp fun hne => hlast ⟨hE, hne⟩
      exact .inr ⟨hzero, by omega, hE⟩
    · rw [if_neg hE] at hlo
      exact .inl (by omega)
  intro p hp
  rcases mem_halves hskip hlen hleft hright hp with rfl | hin | hin
  · simp
  · exact readHextets_chars hn p hin
  · exact readHextets_chars hm p hin

theorem read_chars {cs : List Char} {a : IPv6} (h : read cs = some a) :
    ∀ c ∈ cs, addressChar c = true := by
  rw [read] at h
  simp only at h
  split at h
  · cases h
  obtain ⟨-, -, h⟩ := Option.bind_eq_some_iff.mp h
  obtain ⟨parts, hparts, h⟩ := Option.bind_eq_some_iff.mp h
  split at h
  · cases h
  have hall : ∀ p ∈ parts, ∀ c ∈ p, addressChar c = true := by
    split at h
    case h_1 =>
      split at h
      · cases h
      · obtain ⟨n, hn, -⟩ := Option.bind_eq_some_iff.mp h
        exact readHextets_chars hn
    case h_2 skip hskips =>
      have hmem : skip ∈ skipIndices parts := by rw [hskips]; exact List.mem_singleton_self skip
      set hi := if parts.head? = some [] then skip - 1 else skip with hhi
      set lo := parts.length - skip - 1 - if parts.getLast? = some [] then 1 else 0 with hlo
      split at h
      · cases h
      case isFalse hcond =>
        obtain ⟨hhead, hcond⟩ := not_or.mp hcond
        obtain ⟨hlast, -⟩ := not_or.mp hcond
        obtain ⟨n, hn, h⟩ := Option.bind_eq_some_iff.mp h
        obtain ⟨m, hm, -⟩ := Option.bind_eq_some_iff.mp h
        exact gap_chars hmem hhi hlo hhead hlast hn hm
    case h_3 => cases h
  intro c hc
  have hpart : c = ':' ∨ ∃ p ∈ splitChar ':' cs, c ∈ p := mem_splitChar hc
  cases hpart with
  | inl hcolon => simp [addressChar, hcolon]
  | inr hex =>
    obtain ⟨p, hp, hcp⟩ := hex
    cases expandDotted_chars hparts hp with
    | inl hin => exact hall p hin c hcp
    | inr hchars => exact hchars c hcp

end IPv6

inductive IPAddress where
  | v4 (a : IPv4)
  | v6 (a : IPv6)
  deriving DecidableEq

namespace IPAddress

def toInt : IPAddress → Nat
  | .v4 a => a.val
  | .v6 a => a.val

def exploded : IPAddress → String
  | .v4 a => a.exploded
  | .v6 a => a.exploded

/-- `ip_address(text)` -/
def read (text : String) : Option IPAddress :=
  ((IPv4.read text.toList).map .v4).or ((IPv6.read text.toList).map .v6)

/-- `ip_address(n)`: the family is chosen by the magnitude of the integer. -/
def ofInt (n : Nat) : Option IPAddress :=
  if h : n < 2 ^ 32 then some (.v4 ⟨⟨n, h⟩⟩)
  else if h : n < 2 ^ 128 then some (.v6 ⟨⟨n, h⟩⟩)
  else none

theorem read_chars {text : String} {a : IPAddress} (h : read text = some a) :
    ∀ c ∈ text.toList, addressChar c = true := by
  rw [read, Option.or_eq_some_iff] at h
  cases h with
  | inl h4 =>
    obtain ⟨b, hb, -⟩ := Option.map_eq_some_iff.mp h4
    exact IPv4.read_chars hb
  | inr h6 =>
    obtain ⟨b, hb, -⟩ := Option.map_eq_some_iff.mp h6.2
    exact IPv6.read_chars hb

end IPAddress

example : IPAddress.read "10.90.0.4" = some (.v4 (.ofOctets 10 90 0 4)) := by decide
example : (IPAddress.read "2001:db8::1:0").map IPAddress.exploded =
    some "2001:0db8:0000:0000:0000:0000:0001:0000" := by decide

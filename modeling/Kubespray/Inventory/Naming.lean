import Kubespray.Inventory.Hostnames
import Mathlib.Data.List.TakeWhile
import Mathlib.Tactic.Common

/-! The numbers in host names: which stored hosts the scan of build_hostnames takes over,
and the number it goes on from. -/
namespace Kubespray.Inventory

/-- The name that build_hostnames makes up for the number. -/
def hostName (s : Settings) (k : Nat) : String := s.hostPrefix ++ toString k

section HostId
variable (t : CharTables)

theorem decimal_of_isDigit (c : Char) (h : c.isDigit = true) : t.decimal c = some (c.toNat - 48) := by
  have hc : c.toNat < 128 := by
    have hle := (Char.isDigit_iff_toNat.mp h).2
    exact Nat.lt_of_le_of_lt hle (by decide)
  rw [t.decimal_ascii c hc, if_pos h]

/-- The digits that a text ends in and that go before digits appended to it. -/
def tailDigits (p : List Char) : List Nat :=
  ((p.reverse.takeWhile fun c => (t.decimal c).isSome).filterMap t.decimal).reverse

theorem finalDigits_append (p ds : List Char) (hne : ds ≠ []) (hds : ∀ c ∈ ds, c.isDigit = true) :
    finalDigits t (p ++ ds) = tailDigits t p ++ ds.map fun c => c.toNat - 48 := by
  have hsome : ∀ c ∈ ds.reverse, (t.decimal c).isSome = true := by
    intro c hc
    rw [decimal_of_isDigit t c (hds c (List.mem_reverse.mp hc))]
    rfl
  have hdigits : (ds.reverse.filterMap t.decimal).reverse = ds.map fun c => c.toNat - 48 := by
    rw [← List.filterMap_reverse, List.reverse_reverse, ← List.filterMap_eq_map]
    exact List.filterMap_congr fun c hc => decimal_of_isDigit t c (hds c hc)
  have hback : finalDigits t (p ++ ds) = (((ds.reverse ++ p.reverse).takeWhile fun c =>
      (t.decimal c).isSome).filterMap t.decimal).reverse := by
    rw [finalDigits, List.reverse_append]
    cases hr : ds.reverse with
    | nil => exact absurd (List.reverse_eq_nil_iff.mp hr) hne
    | cons c cs =>
      have hc : c.isDigit = true := hds c (by rw [← List.mem_reverse, hr]; simp)
      simp only [List.cons_append]
      -- The text ends in a digit: there is no line end to drop.
      split
      · rename_i rest he
        obtain ⟨hcn, -⟩ := List.cons.inj he
        rw [hcn] at hc
        cases hc
      · rfl
  rw [hback, List.takeWhile_append_of_pos hsome, List.filterMap_append, List.reverse_append,
    hdigits, tailDigits]

theorem foldl_digits (ds : List Char) (n : Nat) :
    (ds.map fun c => c.toNat - 48).foldl (fun n d => 10 * n + d) n = Nat.ofDigitChars 10 ds n := by
  rw [List.foldl_map, Nat.ofDigitChars_eq_foldl]
  rfl

/-- The id of a generated name: its number, behind the digits the prefix ends in. -/
theorem getHostId_hostName (s : Settings) (k : Nat) (hdot : '.' ∉ s.hostPrefix.toList) :
    getHostId t (hostName s k) = .ok (10 ^ (Nat.toDigits 10 k).length *
      (tailDigits t s.hostPrefix.toList).foldl (fun n d => 10 * n + d) 0 + k) := by
  have hdigit : ∀ c ∈ Nat.toDigits 10 k, c.isDigit = true := fun c hc =>
    Nat.isDigit_of_mem_toDigits (by decide) (by decide) hc
  have htext : (hostName s k).toList = s.hostPrefix.toList ++ Nat.toDigits 10 k := by
    simp [hostName]
  have hshort : (hostName s k).toList.takeWhile (· ≠ '.') =
      s.hostPrefix.toList ++ Nat.toDigits 10 k := by
    rw [htext, List.takeWhile_eq_self_iff]
    intro c hc
    have hne : c ≠ '.' := by
      rintro rfl
      exact (List.mem_append.mp hc).elim hdot (not_mem_toDigits (by decide))
    simpa using hne
  rw [getHostId, hshort]
  simp only [finalDigits_append t _ _ Nat.toDigits_ne_nil hdigit]
  split
  · rename_i h
    exact absurd (List.map_eq_nil_iff.mp (List.append_eq_nil_iff.mp h).2) Nat.toDigits_ne_nil
  · rw [List.foldl_append, foldl_digits, Nat.ofDigitChars_eq_ofDigitChars_zero,
      Nat.ofDigitChars_ten_toDigits]

/-- The prefix does not end in a digit, so that a generated name's id is its number. -/
def NoFinalDigit (p : List Char) : Prop := ∀ c, p.getLast? = some c → t.decimal c = none

theorem tailDigits_eq_nil {p : List Char} (h : NoFinalDigit t p) : tailDigits t p = [] := by
  rw [tailDigits]
  cases hr : p.reverse with
  | nil => rfl
  | cons c cs =>
    have hlast : t.decimal c = none := h c (by rw [List.getLast?_eq_head?_reverse, hr]; rfl)
    simp [hlast]

theorem getHostId_number (s : Settings) (k : Nat) (hdot : '.' ∉ s.hostPrefix.toList)
    (hlast : NoFinalDigit t s.hostPrefix.toList) : getHostId t (hostName s k) = .ok k := by
  rw [getHostId_hostName t s k hdot, tailDigits_eq_nil t hlast]
  simp

theorem hostName_injective (s : Settings) : Function.Injective (hostName s) := by
  intro a b h
  rw [hostName, hostName, String.append_right_inj] at h
  exact toString_nat_injective h

end HostId

section Scan
variable (t : CharTables)

/-- The stored hosts that the scan takes over. -/
def scanned : List (String × Value) → List (String × Value)
  | [] => []
  | e :: rest =>
    match getHostId t e.1 with
    | .error _ => [e]
    | .ok _ => e :: scanned rest

def highestId : List (String × Value) → Nat → Nat
  | [], n => n
  | e :: rest, n =>
    match getHostId t e.1 with
    | .error _ => n
    | .ok id => highestId rest (max n id)

theorem scanExisting_eq (l : List (String × Value)) (d : HostMap) (n : Nat) :
    scanExisting t l d n = (d.setAll (scanned t l), highestId t l n) := by
  induction l generalizing d n with
  | nil => rfl
  | cons e l ih =>
    obtain ⟨host, opts⟩ := e
    rw [scanExisting, scanned, highestId]
    cases h : getHostId t host with
    | error e => simp
    | ok id => simp [ih]

theorem scanned_initial (l : List (String × Value)) : scanned t l <+: l := by
  induction l with
  | nil => exact List.nil_prefix
  | cons e l ih =>
    rw [scanned]
    split
    · exact List.cons_prefix_cons.mpr ⟨rfl, List.nil_prefix⟩
    · exact List.cons_prefix_cons.mpr ⟨rfl, ih⟩

/-- Every name the scan gets to has an id, but for the one it ends at. -/
theorem scanned_eq_self_or (l : List (String × Value)) :
    (scanned t l = l ∧ ∀ e ∈ l, ∃ id, getHostId t e.1 = .ok id) ∨
      ∀ r, scanned t (scanned t l ++ r) = scanned t l ∧
        ∀ n, highestId t (scanned t l ++ r) n = highestId t l n := by
  induction l with
  | nil => exact .inl ⟨rfl, by simp⟩
  | cons e l ih =>
    cases h : getHostId t e.1 with
    | error err =>
      refine .inr fun r => ?_
      simp [scanned, highestId, h]
    | ok id =>
      rcases ih with ⟨hself, hall⟩ | hstop
      · refine .inl ⟨by simp [scanned, h, hself], ?_⟩
        intro x hx
        rcases List.mem_cons.mp hx with rfl | hx
        · exact ⟨id, h⟩
        · exact hall x hx
      · refine .inr fun r => ?_
        simp only [scanned, h, List.cons_append, highestId, (hstop r).1, true_and]
        exact fun n => (hstop r).2 _

theorem scanned_of_ids (l : List (String × Value)) (h : ∀ e ∈ l, ∃ id, getHostId t e.1 = .ok id) :
    scanned t l = l := by
  induction l with
  | nil => rfl
  | cons e l ih =>
    obtain ⟨id, hid⟩ := h e (by simp)
    simp only [scanned, hid, ih fun x hx => h x (List.mem_cons_of_mem e hx)]

theorem highestId_le (l : List (String × Value)) (n m : Nat) (hn : n ≤ m)
    (h : ∀ e ∈ l, ∀ id, getHostId t e.1 = .ok id → id ≤ m) : highestId t l n ≤ m := by
  induction l generalizing n with
  | nil => exact hn
  | cons e l ih =>
    rw [highestId]
    split
    · exact hn
    · rename_i id hid
      exact ih _ (Nat.max_le.mpr ⟨hn, h e (by simp) id hid⟩) fun x hx =>
        h x (List.mem_cons_of_mem e hx)

theorem le_highestId_self (l : List (String × Value)) (n : Nat) : n ≤ highestId t l n := by
  induction l generalizing n with
  | nil => exact Nat.le_refl n
  | cons e l ih =>
    rw [highestId]
    split
    · exact Nat.le_refl n
    · exact Nat.le_trans (Nat.le_max_left _ _) (ih _)

theorem le_highestId (l : List (String × Value)) (n : Nat) (e : String × Value)
    (he : e ∈ scanned t l) (id : Nat) (hid : getHostId t e.1 = .ok id) : id ≤ highestId t l n := by
  induction l generalizing n with
  | nil => cases he
  | cons x l ih =>
    cases hx : getHostId t x.1 with
    | error err =>
      have hex : e = x := by simpa [scanned, hx] using he
      rw [hex, hx] at hid
      cases hid
    | ok m =>
      simp only [scanned, hx, List.mem_cons] at he
      rw [highestId, hx]
      rcases he with rfl | he
      · rw [hid] at hx
        cases hx
        exact Nat.le_trans (Nat.le_max_right _ _) (le_highestId_self t l _)
      · exact ih _ he

/-- The scanned hosts as a dictionary. -/
def scannedHosts (d : HostMap) : HostMap :=
  ⟨scanned t d.entries, ((scanned_initial t d.entries).sublist.map Prod.fst).nodup d.nodup⟩

theorem existingHosts_mapping (d : HostMap) :
    existingHosts t (.mapping d) = (scannedHosts t d, highestId t d.entries 0) := by
  rw [existingHosts, scanExisting_eq]
  refine Prod.ext (OrderedDict.ext_entries ?_) rfl
  have h := OrderedDict.entries_setAll_of_disjoint (∅ : HostMap) (scanned t d.entries)
    (scannedHosts t d).nodup
  rw [h]
  rfl

/-- A generated name beyond the highest id is not the name of a scanned host. -/
theorem hostName_not_mem_scanned (s : Settings) (hdot : '.' ∉ s.hostPrefix.toList) (d : HostMap)
    (k : Nat) (hk : highestId t d.entries 0 < k) : hostName s k ∉ (scannedHosts t d).keys := by
  intro hm
  obtain ⟨e, he, hname⟩ := List.mem_map.mp hm
  have hid := getHostId_hostName t s k hdot
  rw [← hname] at hid
  have hle := le_highestId t d.entries 0 e he _ hid
  omega

end Scan

end Kubespray.Inventory

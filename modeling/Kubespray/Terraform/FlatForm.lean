import Kubespray.Terraform.Parsers
import Kubespray.Lib.Runs
import Mathlib.Tactic.Common

/-! The flat form of attributes: which values convert_to_v3_structure takes, which keys it gives
them, and how the parse functions read these back. -/
namespace Kubespray.Terraform

section Completes

mutual

/-- A text or an object, and so are all items of all lists in it. -/
def convertible : Json → Bool
  | .str _ => true
  | .obj fields => convertibleFields fields
  | _ => false

def convertibleFields : List (String × Json) → Bool
  | [] => true
  | (_, value) :: fields => convertibleField value && convertibleFields fields

def convertibleField : Json → Bool
  | .arr items => convertibleItems items
  | _ => true

def convertibleItems : List Json → Bool
  | [] => true
  | v :: items => convertible v && convertibleItems items

end

theorem isOk_bind {α β : Type} {x : Except PyError α} {f : α → Except PyError β} {b : Bool}
    (h : ∀ a, x = .ok a → (f a).isOk = b) : (x >>= f).isOk = (x.isOk && b) := by
  cases x with
  | error e => rfl
  | ok a => exact (h a rfl).trans (Bool.true_and b).symm

variable (random : Nat → Nat)

mutual

theorem convertToV3Structure_isOk (v : Json) (pre : String) (n : Nat) :
    (convertToV3Structure random v pre n).isOk = convertible v := by
  cases v with
  | str s => rfl
  | obj fields =>
    rw [convertToV3Structure, convertible]
    exact convertFields_isOk fields pre ∅ n
  | null => rfl
  | bool b => rfl
  | num n => rfl
  | float repr => rfl
  | arr items => rfl

theorem convertFields_isOk (fields : List (String × Json)) (pre : String) (result : Attrs) (n : Nat) :
    (convertFields random fields pre result n).isOk = convertibleFields fields := by
  match fields with
  | [] => rfl
  | (key, value) :: fields =>
    rw [convertFields, convertibleFields, ← convertField_isOk key value pre result n]
    exact isOk_bind fun a _ => convertFields_isOk fields pre a.1 a.2

theorem convertField_isOk (key : String) (value : Json) (pre : String) (result : Attrs) (n : Nat) :
    (convertField random key value pre result n).isOk = convertibleField value := by
  cases value with
  | arr items =>
    rw [convertField, convertibleField]
    exact convertItems_isOk key items 0 pre _ n
  | null => rfl
  | bool b => rfl
  | num n => rfl
  | float repr => rfl
  | str s => rfl
  | obj fields => rfl

theorem convertItems_isOk (key : String) (items : List Json) (i : Nat) (pre : String)
    (result : Attrs) (n : Nat) :
    (convertItems random key items i pre result n).isOk = convertibleItems items := by
  match items with
  | [] => rfl
  | v :: items =>
    rw [convertItems, convertibleItems,
      ← convertToV3Structure_isOk v (pre ++ key ++ "." ++ toString i ++ ".") n]
    exact isOk_bind fun a _ => convertItems_isOk key items (i + 1) pre _ a.2

end

end Completes

section Keys
variable (random : Nat → Nat)

mutual

/-- All keys of the flat form begin with the prefix it was asked for. -/
theorem keys_convertToV3Structure (v : Json) (pre : String) (n : Nat) (r : Attrs × Nat)
    (h : convertToV3Structure random v pre n = .ok r) (y : String) (hy : y ∈ r.1.keys) :
    ∃ rest, y = pre ++ rest := by
  cases v with
  | str s =>
    obtain rfl := Except.ok.inj h
    exact ⟨toString (random n), by simpa [addKey] using hy⟩
  | obj fields =>
    rw [convertToV3Structure] at h
    exact (keys_convertFields fields pre ∅ n r h y hy).resolve_left (by simp)
  | null => cases h
  | bool b => cases h
  | num n => cases h
  | float repr => cases h
  | arr items => cases h

theorem keys_convertFields (fields : List (String × Json)) (pre : String) (result : Attrs) (n : Nat)
    (r : Attrs × Nat) (h : convertFields random fields pre result n = .ok r) (y : String)
    (hy : y ∈ r.1.keys) : y ∈ result.keys ∨ ∃ rest, y = pre ++ rest := by
  match fields with
  | [] =>
    obtain rfl := Except.ok.inj h
    exact .inl hy
  | (key, value) :: fields =>
    rw [convertFields] at h
    obtain ⟨a, ha, h⟩ := Runs.bind_eq_ok h
    cases keys_convertFields fields pre a.1 a.2 r h y hy with
    | inr hrest => exact .inr hrest
    | inl ha' =>
      refine (keys_convertField key value pre result n a ha y ha').imp_right fun hrest => ?_
      obtain ⟨rest, rfl⟩ := hrest
      exact ⟨key ++ rest, String.append_assoc⟩

theorem keys_convertField (key : String) (value : Json) (pre : String) (result : Attrs) (n : Nat)
    (r : Attrs × Nat) (h : convertField random key value pre result n = .ok r) (y : String)
    (hy : y ∈ r.1.keys) : y ∈ result.keys ∨ ∃ rest, y = pre ++ key ++ rest := by
  have hscalar : ∀ value', y ∈ (result.setItem (pre ++ key) value').keys →
      y ∈ result.keys ∨ ∃ rest, y = pre ++ key ++ rest := by
    intro value' hy
    rw [OrderedDict.keys_setItem, mem_addKey] at hy
    exact hy.imp_right fun he => ⟨"", by rw [he, String.append_empty]⟩
  cases value with
  | arr items =>
    rw [convertField] at h
    cases keys_convertItems key items 0 pre _ n r h y hy with
    | inr hrest =>
      obtain ⟨rest, rfl⟩ := hrest
      exact .inr ⟨"." ++ rest, String.append_assoc⟩
    | inl hresult =>
      split at hresult
      · exact .inl hresult
      · rw [OrderedDict.keys_setItem, mem_addKey] at hresult
        exact hresult.imp_right fun he => ⟨".#", he⟩
  | obj fields =>
    obtain rfl := Except.ok.inj h
    rw [OrderedDict.keys_setAll, mem_addKeys, OrderedDict.keys_setItem, mem_addKey] at hy
    obtain (hy | hy) | hy := hy
    · exact .inl hy
    · exact .inr ⟨".%", hy⟩
    · obtain ⟨e, he, rfl⟩ := List.mem_map.mp hy
      obtain ⟨f, -, rfl⟩ := List.mem_map.mp he
      exact .inr ⟨"." ++ f.1, String.append_assoc⟩
  | null =>
    obtain rfl := Except.ok.inj h
    exact hscalar _ hy
  | bool b =>
    obtain rfl := Except.ok.inj h
    exact hscalar _ hy
  | num n =>
    obtain rfl := Except.ok.inj h
    exact hscalar _ hy
  | float repr =>
    obtain rfl := Except.ok.inj h
    exact hscalar _ hy
  | str s =>
    obtain rfl := Except.ok.inj h
    exact hscalar _ hy

theorem keys_convertItems (key : String) (items : List Json) (i : Nat) (pre : String)
    (result : Attrs) (n : Nat) (r : Attrs × Nat)
    (h : convertItems random key items i pre result n = .ok r) (y : String) (hy : y ∈ r.1.keys) :
    y ∈ result.keys ∨ ∃ rest, y = pre ++ key ++ "." ++ rest := by
  match items with
  | [] =>
    obtain rfl := Except.ok.inj h
    exact .inl hy
  | v :: items =>
    rw [convertItems] at h
    obtain ⟨a, ha, h⟩ := Runs.bind_eq_ok h
    cases keys_convertItems key items (i + 1) pre _ a.2 r h y hy with
    | inr hrest => exact .inr hrest
    | inl hresult =>
      rw [OrderedDict.keys_setAll, mem_addKeys] at hresult
      refine hresult.imp_right fun hconverted => ?_
      obtain ⟨rest, rfl⟩ := keys_convertToV3Structure v _ n a ha y hconverted
      exact ⟨toString i ++ "." ++ rest, by simp only [String.append_assoc]⟩

end

end Keys

section Reading

theorem splitKey_eq_some_iff (y p q : String) :
    splitKey '.' y = some (p, q) ↔ '.' ∉ p.toList ∧ y = p ++ "." ++ q := by
  rw [splitKey, Option.map_eq_some_iff]
  constructor
  · intro h
    obtain ⟨e, he, heq⟩ := h
    obtain ⟨rfl, rfl⟩ := Prod.mk.inj heq
    obtain ⟨hno, hy⟩ := (splitOnce_eq_some_iff '.' y.toList e.1 e.2).mp he
    refine ⟨by simpa using hno, String.toList_injective ?_⟩
    simpa using hy
  · intro h
    obtain ⟨hno, rfl⟩ := h
    refine ⟨(p.toList, q.toList), ?_, by simp⟩
    simpa using splitOnce_append '.' p.toList q.toList hno

/-- The keys of the flat form that hold a part of the attribute. -/
def partOf (k y : String) : Bool := (splitKey '.' y).any (·.1 = k)

theorem partOf_iff (k y : String) :
    partOf k y = true ↔ '.' ∉ k.toList ∧ ∃ rest, y = k ++ "." ++ rest := by
  rw [partOf, Option.any_eq_true]
  constructor
  · intro h
    obtain ⟨⟨p, q⟩, hs, hp⟩ := h
    obtain rfl : p = k := by simpa using hp
    obtain ⟨hno, hy⟩ := (splitKey_eq_some_iff y p q).mp hs
    exact ⟨hno, q, hy⟩
  · intro h
    obtain ⟨hno, rest, hy⟩ := h
    exact ⟨(k, rest), (splitKey_eq_some_iff y k rest).mpr ⟨hno, hy⟩, by simp⟩

theorem partOf_self (k : String) (hk : '.' ∉ k.toList) (x : String) :
    partOf k (k ++ "." ++ x) = true := (partOf_iff k _).mpr ⟨hk, x, rfl⟩

/-- Neither the attribute itself nor a part of another attribute is a part of this one. -/
theorem not_partOf (k key : String) (hkey : '.' ∉ key.toList) (hne : key ≠ k) :
    partOf k key = false ∧ ∀ rest, partOf k (key ++ "." ++ rest) = false := by
  constructor
  · rw [Bool.eq_false_iff]
    intro h
    obtain ⟨-, rest, rfl⟩ := (partOf_iff k key).mp h
    exact hkey (by simp)
  · intro rest
    have hs := (splitKey_eq_some_iff _ key rest).mpr ⟨hkey, rfl⟩
    rw [partOf, hs]
    simpa using hne

theorem mem_parsePrefix (source : Attrs) (k : String) (hk : '.' ∉ k.toList) (x : String) (v : Json) :
    (x, v) ∈ parsePrefix source k '.' ↔ x ≠ "#" ∧ source.lookup (k ++ "." ++ x) = some v := by
  rw [OrderedDict.lookup_eq_some_iff, parsePrefix, List.mem_filterMap]
  constructor
  · intro h
    obtain ⟨⟨y, w⟩, he, hx⟩ := h
    cases hs : splitKey '.' y with
    | none => simp [hs] at hx
    | some p =>
      obtain ⟨p, q⟩ := p
      simp only [hs, Option.ite_none_left_eq_some, not_or, not_not] at hx
      obtain ⟨⟨rfl, hcount⟩, heq⟩ := hx
      obtain ⟨rfl, rfl⟩ := Prod.mk.inj (Option.some.inj heq)
      obtain ⟨-, rfl⟩ := (splitKey_eq_some_iff y p q).mp hs
      exact ⟨hcount, he⟩
  · intro h
    obtain ⟨hcount, he⟩ := h
    refine ⟨(k ++ "." ++ x, v), he, ?_⟩
    simp [(splitKey_eq_some_iff _ k x).mpr ⟨hk, rfl⟩, hcount]

/-- What parse_dict finds under a name: what the flat form has for it, its counts of lists
apart. -/
theorem lookup_parseDict (source : Attrs) (k : String) (hk : '.' ∉ k.toList) (x : String) :
    (parseDict source k '.').lookup x =
      if x = "#" then none else source.lookup (k ++ "." ++ x) := by
  rw [parseDict]
  by_cases hx : x ∈ (parsePrefix source k '.').map Prod.fst
  · obtain ⟨v, hv, hm⟩ := OrderedDict.lookup_setAll_of_mem ∅ _ x hx
    obtain ⟨hcount, hsource⟩ := (mem_parsePrefix source k hk x v).mp hm
    rw [hv, if_neg hcount, hsource]
  · rw [OrderedDict.lookup_setAll_of_not_mem _ _ _ hx, OrderedDict.lookup_empty]
    split
    · rfl
    · rename_i hcount
      cases hsource : source.lookup (k ++ "." ++ x) with
      | none => rfl
      | some v =>
        have hm := (mem_parsePrefix source k hk x v).mpr ⟨hcount, hsource⟩
        exact absurd (List.mem_map_of_mem hm) hx

end Reading

section Frame
variable (random : Nat → Nat) (p : String → Bool)

theorem filterKeys_convertItems (key : String) (items : List Json) (i : Nat) (pre : String)
    (result : Attrs) (n : Nat) (r : Attrs × Nat)
    (h : convertItems random key items i pre result n = .ok r)
    (hp : ∀ rest, p (pre ++ key ++ "." ++ rest) = false) :
    r.1.filterKeys p = result.filterKeys p := by
  induction items generalizing i result n with
  | nil => rw [← Except.ok.inj h]
  | cons v items ih =>
    rw [convertItems] at h
    obtain ⟨a, ha, h⟩ := Runs.bind_eq_ok h
    rw [ih (i + 1) _ a.2 h]
    refine OrderedDict.filterKeys_setAll_of_not result p _ fun e he => ?_
    obtain ⟨rest, hrest⟩ := keys_convertToV3Structure random v _ n a ha e.1 (List.mem_map_of_mem he)
    have hkey : e.1 = pre ++ key ++ "." ++ (toString i ++ "." ++ rest) := by
      rw [hrest]
      simp only [String.append_assoc]
    rw [hkey]
    exact hp _

/-- One round of the loop leaves the keys that do not belong to its attribute as they are. -/
theorem filterKeys_convertField (key : String) (value : Json) (pre : String) (result : Attrs)
    (n : Nat) (r : Attrs × Nat) (h : convertField random key value pre result n = .ok r)
    (hself : p (pre ++ key) = false) (hp : ∀ rest, p (pre ++ key ++ "." ++ rest) = false) :
    r.1.filterKeys p = result.filterKeys p := by
  have hset : ∀ v, (result.setItem (pre ++ key) v).filterKeys p = result.filterKeys p :=
    fun v => OrderedDict.filterKeys_setItem_of_not result p _ v hself
  cases value with
  | arr items =>
    rw [convertField] at h
    rw [filterKeys_convertItems random p key items 0 pre _ n r h hp]
    split
    · rfl
    · exact OrderedDict.filterKeys_setItem_of_not result p _ _
        (by simpa [String.append_assoc] using hp "#")
  | obj fields =>
    rw [← Except.ok.inj h, OrderedDict.filterKeys_setAll_of_not]
    · exact OrderedDict.filterKeys_setItem_of_not result p _ _
        (by simpa [String.append_assoc] using hp "%")
    · intro e he
      obtain ⟨f, -, rfl⟩ := List.mem_map.mp he
      exact hp f.1
  | null => rw [← Except.ok.inj h, hset]
  | bool b => rw [← Except.ok.inj h, hset]
  | num n => rw [← Except.ok.inj h, hset]
  | float repr => rw [← Except.ok.inj h, hset]
  | str s => rw [← Except.ok.inj h, hset]

theorem filterKeys_convertFields (fields : List (String × Json)) (pre : String) (result : Attrs)
    (n : Nat) (r : Attrs × Nat) (h : convertFields random fields pre result n = .ok r)
    (hp : ∀ e ∈ fields, p (pre ++ e.1) = false ∧ ∀ rest, p (pre ++ e.1 ++ "." ++ rest) = false) :
    r.1.filterKeys p = result.filterKeys p := by
  induction fields generalizing result n with
  | nil => rw [← Except.ok.inj h]
  | cons e fields ih =>
    rw [convertFields] at h
    obtain ⟨a, ha, h⟩ := Runs.bind_eq_ok h
    obtain ⟨hself, hparts⟩ := hp e (by simp)
    rw [ih a.1 a.2 h fun x hx => hp x (List.mem_cons_of_mem e hx),
      filterKeys_convertField random p e.1 e.2 pre result n a ha hself hparts]

theorem convertFields_append (l l' : List (String × Json)) (pre : String) (result : Attrs) (n : Nat) :
    convertFields random (l ++ l') pre result n =
      convertFields random l pre result n >>= fun a => convertFields random l' pre a.1 a.2 := by
  induction l generalizing result n with
  | nil => rfl
  | cons e l ih =>
    rw [List.cons_append, convertFields, convertFields]
    cases convertField random e.1 e.2 pre result n with
    | error e => rfl
    | ok a => exact ih a.1 a.2

/-- The parts of an attribute come from its own round of the loop, which finds none of them. -/
theorem parts_of_converted (attrs : Attrs) (hkeys : ∀ key ∈ attrs.keys, '.' ∉ key.toList)
    (k : String) (value : Json) (hk : attrs.lookup k = some value) (n : Nat) (r : Attrs × Nat)
    (h : convertToV3Structure random (.obj attrs.entries) "" n = .ok r) :
    ∃ r1 r2 : Attrs × Nat, r1.1.filterKeys (partOf k) = ∅ ∧ convertField random k value "" r1.1 r1.2 = .ok r2 ∧
      r.1.filterKeys (partOf k) = r2.1.filterKeys (partOf k) := by
  obtain ⟨l, l', hl⟩ := List.append_of_mem ((OrderedDict.lookup_eq_some_iff attrs k value).mp hk)
  have hnodup := attrs.nodup
  rw [hl, List.map_append, List.map_cons, List.nodup_middle] at hnodup
  have hother : ∀ e ∈ l ++ l', partOf k ("" ++ e.1) = false ∧
      ∀ rest, partOf k ("" ++ e.1 ++ "." ++ rest) = false := by
    intro e he
    have hmem : e.1 ∈ (l ++ l').map Prod.fst := List.mem_map_of_mem he
    rw [String.empty_append]
    refine not_partOf k e.1 (hkeys e.1 ?_) fun heq => ?_
    · rw [OrderedDict.keys, hl]
      simp only [List.map_append, List.map_cons, List.mem_append, List.mem_cons] at hmem ⊢
      exact hmem.imp_right .inr
    · rw [heq, List.map_append] at hmem
      exact (List.nodup_cons.mp hnodup).1 hmem
  rw [convertToV3Structure, hl, convertFields_append] at h
  obtain ⟨r1, hr1, h⟩ := Runs.bind_eq_ok h
  rw [convertFields] at h
  obtain ⟨r2, hr2, h⟩ := Runs.bind_eq_ok h
  refine ⟨r1, r2, ?_, hr2, ?_⟩
  · rw [filterKeys_convertFields random (partOf k) l "" ∅ n r1 hr1
      fun e he => hother e (List.mem_append_left l' he)]
    rfl
  · exact filterKeys_convertFields random (partOf k) l' "" r2.1 r2.2 r h
      fun e he => hother e (List.mem_append_right l he)

end Frame
end Kubespray.Terraform

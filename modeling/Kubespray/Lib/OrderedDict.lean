import Mathlib.Data.List.Nodup
import Mathlib.Data.List.Dedup

/-! Dictionaries that keep insertion order: assigning to a key that is present
keeps its place, a new key goes last. Keys are distinct by construction. -/
variable {κ ν : Type*} [DecidableEq κ]

/-- The key list after an assignment to `k`. -/
def addKey (k : κ) : List κ → List κ
  | [] => [k]
  | x :: xs => if x = k then x :: xs else x :: addKey k xs

theorem addKey_of_mem (k : κ) (l : List κ) (h : k ∈ l) : addKey k l = l := by
  induction l with
  | nil => simp at h
  | cons x xs ih =>
    by_cases hx : x = k
    · simp [addKey, hx]
    · have ht : k ∈ xs := by simpa [Ne.symm hx] using h
      simp [addKey, hx, ih ht]

theorem addKey_of_not_mem (k : κ) (l : List κ) (h : k ∉ l) : addKey k l = l ++ [k] := by
  induction l with
  | nil => rfl
  | cons x xs ih =>
    have hx : x ≠ k := fun he => h (by simp [he])
    have ht : k ∉ xs := fun hm => h (List.mem_cons_of_mem x hm)
    simp [addKey, hx, ih ht]

@[simp] theorem mem_addKey (k x : κ) (l : List κ) : x ∈ addKey k l ↔ x ∈ l ∨ x = k := by
  by_cases h : k ∈ l
  · rw [addKey_of_mem k l h]
    constructor
    · exact Or.inl
    · rintro (hx | rfl)
      · exact hx
      · exact h
  · simp [addKey_of_not_mem k l h]

theorem addKey_nodup (k : κ) (l : List κ) (h : l.Nodup) : (addKey k l).Nodup := by
  by_cases hk : k ∈ l
  · rwa [addKey_of_mem k l hk]
  · rw [addKey_of_not_mem k l hk]
    exact List.nodup_append.mpr ⟨h, by simp, by
      intro a ha b hb hab
      have hbk : b = k := by simpa using hb
      exact hk (by rwa [← hbk, ← hab])⟩

def addKeys (l ks : List κ) : List κ := ks.foldl (fun acc k => addKey k acc) l

@[simp] theorem addKeys_nil (l : List κ) : addKeys l [] = l := rfl

@[simp] theorem addKeys_cons (l : List κ) (k : κ) (ks : List κ) :
    addKeys l (k :: ks) = addKeys (addKey k l) ks := rfl

@[simp] theorem mem_addKeys (l ks : List κ) (x : κ) : x ∈ addKeys l ks ↔ x ∈ l ∨ x ∈ ks := by
  induction ks generalizing l with
  | nil => simp
  | cons k ks ih => simp only [addKeys_cons, ih, mem_addKey, List.mem_cons]; tauto

theorem addKeys_append (l ks ms : List κ) : addKeys l (ks ++ ms) = addKeys (addKeys l ks) ms :=
  List.foldl_append

theorem addKeys_of_subset (l ks : List κ) (h : ks ⊆ l) : addKeys l ks = l := by
  induction ks with
  | nil => rfl
  | cons k ks ih =>
    rw [addKeys_cons, addKey_of_mem k l (h (by simp)), ih fun x hx => h (List.mem_cons_of_mem k hx)]

theorem addKeys_of_disjoint (l ks : List κ) (h : (l ++ ks).Nodup) : addKeys l ks = l ++ ks := by
  induction ks generalizing l with
  | nil => simp
  | cons k ks ih =>
    have hk : k ∉ l := fun hm => (List.nodup_append.mp h).2.2 k hm k (by simp) rfl
    rw [addKeys_cons, addKey_of_not_mem k l hk, ih _ (by simpa using h), List.append_assoc,
      List.singleton_append]

theorem addKeys_of_initial {l ks : List κ} (h : l <+: ks) (hnd : ks.Nodup) : addKeys l ks = ks := by
  obtain ⟨r, rfl⟩ := h
  rw [addKeys_append, addKeys_of_subset l l (List.Subset.refl l), addKeys_of_disjoint l r hnd]

theorem prefix_addKeys (l ks : List κ) : l <+: addKeys l ks := by
  induction ks generalizing l with
  | nil => exact List.prefix_refl l
  | cons k ks ih =>
    refine List.IsPrefix.trans ?_ (ih (addKey k l))
    by_cases hk : k ∈ l
    · exact (addKey_of_mem k l hk).symm ▸ List.prefix_refl l
    · rw [addKey_of_not_mem k l hk]
      exact List.prefix_append l [k]

theorem length_addKeys (l ks : List κ) (h : ks.Nodup) :
    (addKeys l ks).length = l.length + (ks.filter (· ∉ l)).length := by
  induction ks generalizing l with
  | nil => simp
  | cons k ks ih =>
    have hk : k ∉ ks := (List.nodup_cons.mp h).1
    have hs : ks.filter (· ∉ addKey k l) = ks.filter (· ∉ l) := by
      apply List.filter_congr
      intro x hx
      have hxk : x ≠ k := fun he => hk (he ▸ hx)
      simp [hxk]
    rw [addKeys_cons, ih _ (List.nodup_cons.mp h).2, hs]
    by_cases hl : k ∈ l
    · simp [addKey_of_mem k l hl, hl]
    · simp [addKey_of_not_mem k l hl, hl]; omega

section Unique
variable {α β : Type*} [DecidableEq β]

/-- The filter `unique`: the first of the elements with the same `f`, where `seen` is what came
before. -/
def uniqueFrom (f : α → β) : List β → List α → List α
  | _, [] => []
  | seen, x :: xs =>
    if f x ∈ seen then uniqueFrom f seen xs else x :: uniqueFrom f (f x :: seen) xs

def uniqueBy (f : α → β) (l : List α) : List α := uniqueFrom f [] l

theorem find?_uniqueFrom {f : α → β} {p : α → Bool} (hp : ∀ x y, f x = f y → p x = p y)
    (seen : List β) (l : List α) :
    (uniqueFrom f seen l).find? p = (l.filter fun x => f x ∉ seen).find? p := by
  induction l generalizing seen with
  | nil => rfl
  | cons x xs ih =>
    rw [uniqueFrom]
    by_cases hseen : f x ∈ seen
    · rw [if_pos hseen, ih, List.filter_cons_of_neg (by simpa using hseen)]
    · rw [if_neg hseen, List.filter_cons_of_pos (by simpa using hseen)]
      cases hx : p x with
      | true => rw [List.find?_cons_of_pos hx, List.find?_cons_of_pos hx]
      | false =>
        rw [List.find?_cons_of_neg (by simp [hx]), List.find?_cons_of_neg (by simp [hx]), ih,
          List.find?_filter, List.find?_filter]
        refine congrArg (List.find? · xs) (funext fun y => ?_)
        by_cases hyx : f y = f x
        · simp [hp y x hyx, hx]
        · simp [hyx]

theorem find?_uniqueBy {f : α → β} {p : α → Bool} (hp : ∀ x y, f x = f y → p x = p y) (l : List α) :
    (uniqueBy f l).find? p = l.find? p := by
  rw [uniqueBy, find?_uniqueFrom hp]
  simp

theorem not_mem_of_mem_uniqueFrom {f : α → β} {seen : List β} {l : List α} {x : α}
    (h : x ∈ uniqueFrom f seen l) : f x ∉ seen := by
  induction l generalizing seen with
  | nil => cases h
  | cons y ys ih =>
    rw [uniqueFrom] at h
    split at h
    · exact ih h
    · rename_i hy
      cases List.mem_cons.mp h with
      | inl hxy => exact hxy ▸ hy
      | inr hys => exact fun hs => ih hys (List.mem_cons_of_mem _ hs)

/-- An element stays exactly where it is the first of its kind. -/
theorem mem_uniqueFrom_iff {f : α → β} {seen : List β} {l : List α} {x : α} :
    x ∈ uniqueFrom f seen l ↔ (uniqueFrom f seen l).find? (fun y => f y = f x) = some x := by
  refine ⟨fun h => ?_, List.mem_of_find?_eq_some⟩
  induction l generalizing seen with
  | nil => cases h
  | cons y ys ih =>
    rw [uniqueFrom] at h ⊢
    split at h
    · rename_i hy
      rw [if_pos hy]
      exact ih h
    · rename_i hy
      rw [if_neg hy]
      cases List.mem_cons.mp h with
      | inl hxy => rw [hxy, List.find?_cons_of_pos (by simp)]
      | inr hys =>
        have hno : f x ∉ f y :: seen := not_mem_of_mem_uniqueFrom hys
        have hne : f y ≠ f x := fun he => hno (by simp [he])
        rw [List.find?_cons_of_neg (by simpa using hne), ih hys]

theorem mem_uniqueBy_iff {f : α → β} {l : List α} {x : α} :
    x ∈ uniqueBy f l ↔ l.find? (fun y => f y = f x) = some x := by
  rw [← find?_uniqueBy (f := f) (fun y z hyz => by simp [hyz]) l]
  exact mem_uniqueFrom_iff

end Unique

theorem lookup_cons_if (x : κ) (e : κ × ν) (es : List (κ × ν)) :
    (e :: es).lookup x = if x = e.1 then some e.2 else es.lookup x := by
  obtain ⟨k, v⟩ := e
  by_cases hx : x = k
  · simp [hx]
  · have hb : (x == k) = false := beq_eq_false_iff_ne.mpr hx
    simp [List.lookup_cons, hb, hx]

theorem lookup_map_snd {μ : Type*} (f : κ → ν → μ) (l : List (κ × ν)) (k : κ) :
    (l.map fun e => (e.1, f e.1 e.2)).lookup k = (l.lookup k).map (f k) := by
  induction l with
  | nil => rfl
  | cons e l ih =>
    rw [List.map_cons, lookup_cons_if, lookup_cons_if, ih]
    by_cases hk : k = e.1 <;> simp [hk]

structure OrderedDict (κ ν : Type*) where
  entries : List (κ × ν)
  nodup : (entries.map Prod.fst).Nodup

namespace OrderedDict

def empty : OrderedDict κ ν := ⟨[], by simp⟩

instance : EmptyCollection (OrderedDict κ ν) := ⟨empty⟩

def keys (d : OrderedDict κ ν) : List κ := d.entries.map Prod.fst

def values (d : OrderedDict κ ν) : List ν := d.entries.map Prod.snd

/-- `d.get(k)`: the value under `k`, if any. -/
def lookup (d : OrderedDict κ ν) (k : κ) : Option ν := d.entries.lookup k

omit [DecidableEq κ] in
theorem keys_nodup (d : OrderedDict κ ν) : d.keys.Nodup := d.nodup

omit [DecidableEq κ] in
@[simp] theorem keys_empty : (∅ : OrderedDict κ ν).keys = [] := rfl

@[simp] theorem lookup_empty (k : κ) : (∅ : OrderedDict κ ν).lookup k = none := rfl

def setEntry (k : κ) (v : ν) : List (κ × ν) → List (κ × ν)
  | [] => [(k, v)]
  | p :: ps => if p.1 = k then (p.1, v) :: ps else p :: setEntry k v ps

theorem keys_setEntry (k : κ) (v : ν) (l : List (κ × ν)) :
    (setEntry k v l).map Prod.fst = addKey k (l.map Prod.fst) := by
  induction l with
  | nil => rfl
  | cons p ps ih =>
    by_cases hp : p.1 = k
    · simp [setEntry, addKey, hp]
    · simp [setEntry, addKey, hp, ih]

theorem lookup_setEntry (k x : κ) (v : ν) (l : List (κ × ν)) :
    (setEntry k v l).lookup x = if x = k then some v else l.lookup x := by
  induction l with
  | nil => simp [setEntry, lookup_cons_if]
  | cons p ps ih =>
    by_cases hp : p.1 = k
    · by_cases hx : x = k <;> simp [setEntry, lookup_cons_if, hp, hx]
    · by_cases hx : x = p.1
      · simp [setEntry, lookup_cons_if, hp, hx]
      · simp [setEntry, lookup_cons_if, hp, hx, ih]

/-- `d[k] = v` -/
def setItem (d : OrderedDict κ ν) (k : κ) (v : ν) : OrderedDict κ ν :=
  ⟨setEntry k v d.entries, by rw [keys_setEntry]; exact addKey_nodup k _ d.nodup⟩

@[simp] theorem keys_setItem (d : OrderedDict κ ν) (k : κ) (v : ν) :
    (d.setItem k v).keys = addKey k d.keys := keys_setEntry k v d.entries

@[simp] theorem lookup_setItem (d : OrderedDict κ ν) (k x : κ) (v : ν) :
    (d.setItem k v).lookup x = if x = k then some v else d.lookup x :=
  lookup_setEntry k x v d.entries

def filterKeys (d : OrderedDict κ ν) (p : κ → Bool) : OrderedDict κ ν :=
  ⟨d.entries.filter (fun e => p e.1), (List.filter_sublist.map Prod.fst).nodup d.nodup⟩

omit [DecidableEq κ] in
@[simp] theorem keys_filterKeys (d : OrderedDict κ ν) (p : κ → Bool) :
    (d.filterKeys p).keys = d.keys.filter p := by
  simp only [keys, filterKeys, List.filter_map]; rfl

@[simp] theorem lookup_filterKeys (d : OrderedDict κ ν) (p : κ → Bool) (x : κ) :
    (d.filterKeys p).lookup x = if p x then d.lookup x else none := by
  obtain ⟨l, hl⟩ := d
  simp only [lookup, filterKeys]
  clear hl
  induction l with
  | nil => simp
  | cons e es ih =>
    by_cases hp : p e.1
    · by_cases hx : x = e.1
      · simp [lookup_cons_if, hp, hx]
      · simp [lookup_cons_if, hp, hx, ih]
    · by_cases hx : x = e.1
      · subst hx
        simpa [hp] using ih
      · simp [lookup_cons_if, hp, hx, ih]

/-- `del d[k]`, when `k` is present. -/
def erase (d : OrderedDict κ ν) (k : κ) : OrderedDict κ ν := d.filterKeys (fun x => x ≠ k)

/-- `d.update(entries)` -/
def setAll (d : OrderedDict κ ν) (es : List (κ × ν)) : OrderedDict κ ν :=
  es.foldl (fun acc e => acc.setItem e.1 e.2) d

@[simp] theorem setAll_nil (d : OrderedDict κ ν) : d.setAll [] = d := rfl

@[simp] theorem setAll_cons (d : OrderedDict κ ν) (e : κ × ν) (es : List (κ × ν)) :
    d.setAll (e :: es) = (d.setItem e.1 e.2).setAll es := rfl

theorem keys_setAll (d : OrderedDict κ ν) (es : List (κ × ν)) :
    (d.setAll es).keys = addKeys d.keys (es.map Prod.fst) := by
  induction es generalizing d with
  | nil => rfl
  | cons e es ih => simp [ih]

theorem mem_keys_iff (d : OrderedDict κ ν) (k : κ) : k ∈ d.keys ↔ ∃ v, d.lookup k = some v := by
  obtain ⟨l, hl⟩ := d
  simp only [keys, lookup]
  clear hl
  induction l with
  | nil => simp
  | cons e es ih =>
    by_cases hk : k = e.1
    · simp [lookup_cons_if, hk]
    · simp only [List.map_cons, List.mem_cons, lookup_cons_if, hk, false_or, if_false, ih]

theorem lookup_eq_none_iff (d : OrderedDict κ ν) (k : κ) : d.lookup k = none ↔ k ∉ d.keys := by
  rw [mem_keys_iff]
  cases d.lookup k <;> simp

theorem lookup_setAll_of_not_mem (d : OrderedDict κ ν) (es : List (κ × ν)) (k : κ)
    (h : k ∉ es.map Prod.fst) : (d.setAll es).lookup k = d.lookup k := by
  induction es generalizing d with
  | nil => rfl
  | cons e es ih =>
    have hk : k ≠ e.1 := fun he => h (by simp [he])
    have ht : k ∉ es.map Prod.fst := fun hm => h (List.mem_cons_of_mem _ hm)
    simp [ih _ ht, hk]

theorem lookup_setAll_of_mem (d : OrderedDict κ ν) (es : List (κ × ν)) (k : κ)
    (h : k ∈ es.map Prod.fst) : ∃ v, (d.setAll es).lookup k = some v ∧ (k, v) ∈ es := by
  induction es generalizing d with
  | nil => simp at h
  | cons e es ih =>
    by_cases ht : k ∈ es.map Prod.fst
    · obtain ⟨v, hv, hm⟩ := ih (d.setItem e.1 e.2) ht
      exact ⟨v, hv, List.mem_cons_of_mem e hm⟩
    · have hk : k = e.1 := by
        rw [List.map_cons, List.mem_cons] at h
        exact h.resolve_right ht
      refine ⟨e.2, ?_, by simp [hk]⟩
      rw [setAll_cons, lookup_setAll_of_not_mem _ _ _ ht]
      simp [hk]

theorem lookup_eq_some_iff (d : OrderedDict κ ν) (k : κ) (v : ν) :
    d.lookup k = some v ↔ (k, v) ∈ d.entries := by
  obtain ⟨l, hl⟩ := d
  simp only [lookup]
  induction l with
  | nil => simp
  | cons e es ih =>
    have hne := List.nodup_cons.mp (by simpa using hl : (e.1 :: es.map Prod.fst).Nodup)
    by_cases hk : k = e.1
    · have hnot : (k, v) ∉ es := fun hm => hne.1 (hk ▸ List.mem_map_of_mem hm)
      rw [lookup_cons_if, if_pos hk, List.mem_cons, or_iff_left hnot, Option.some.injEq,
        Prod.ext_iff]
      simp [hk, eq_comm]
    · rw [lookup_cons_if, if_neg hk, ih hne.2, List.mem_cons, or_iff_right]
      exact fun he => hk (congrArg Prod.fst he)

/-- `d.update(t)`: what `t` does not hold stays. -/
theorem lookup_setAll_entries (d t : OrderedDict κ ν) (k : κ) :
    (d.setAll t.entries).lookup k = (t.lookup k).or (d.lookup k) := by
  by_cases hk : k ∈ t.keys
  · obtain ⟨v, hv, hm⟩ := lookup_setAll_of_mem d t.entries k hk
    rw [hv, (t.lookup_eq_some_iff k v).mpr hm, Option.some_or]
  · rw [lookup_setAll_of_not_mem d t.entries k hk, (t.lookup_eq_none_iff k).mpr hk, Option.none_or]

omit [DecidableEq κ] in
theorem ext_entries {d t : OrderedDict κ ν} (h : d.entries = t.entries) : d = t := by
  obtain ⟨l, hl⟩ := d
  obtain ⟨m, hm⟩ := t
  cases h
  rfl

theorem entries_setItem_of_not_mem (d : OrderedDict κ ν) (k : κ) (v : ν) (h : k ∉ d.keys) :
    (d.setItem k v).entries = d.entries ++ [(k, v)] := by
  obtain ⟨l, hl⟩ := d
  simp only [keys] at h
  simp only [setItem]
  clear hl
  induction l with
  | nil => rfl
  | cons p ps ih =>
    have hp : p.1 ≠ k := fun he => h (by simp [he])
    rw [setEntry, if_neg hp, ih fun hm => h (List.mem_cons_of_mem _ hm), List.cons_append]

theorem setItem_of_lookup (d : OrderedDict κ ν) (k : κ) (v : ν) (h : d.lookup k = some v) :
    d.setItem k v = d := by
  apply ext_entries
  obtain ⟨l, hl⟩ := d
  simp only [lookup] at h
  simp only [setItem]
  clear hl
  induction l with
  | nil => cases h
  | cons p ps ih =>
    rw [lookup_cons_if] at h
    by_cases hp : p.1 = k
    · rw [if_pos hp.symm] at h
      rw [setEntry, if_pos hp, ← Option.some.inj h]
    · rw [if_neg (Ne.symm hp)] at h
      rw [setEntry, if_neg hp, ih h]

/-- Entries that are there already change nothing. -/
theorem setAll_of_lookup (d : OrderedDict κ ν) (es : List (κ × ν))
    (h : ∀ e ∈ es, d.lookup e.1 = some e.2) : d.setAll es = d := by
  induction es with
  | nil => rfl
  | cons e es ih =>
    rw [setAll_cons, setItem_of_lookup d _ _ (h e (by simp))]
    exact ih fun x hx => h x (List.mem_cons_of_mem e hx)

theorem entries_setAll_of_disjoint (d : OrderedDict κ ν) (es : List (κ × ν))
    (hnd : (d.keys ++ es.map Prod.fst).Nodup) : (d.setAll es).entries = d.entries ++ es := by
  induction es generalizing d with
  | nil => simp
  | cons e es ih =>
    have hk : e.1 ∉ d.keys := by
      intro hm
      exact (List.nodup_append.mp hnd).2.2 e.1 hm e.1 (by simp) rfl
    have hkeys : (d.setItem e.1 e.2).keys ++ es.map Prod.fst =
        d.keys ++ (e :: es).map Prod.fst := by
      rw [keys_setItem, addKey_of_not_mem _ _ hk]
      simp
    rw [setAll_cons, ih _ (hkeys ▸ hnd), entries_setItem_of_not_mem _ _ _ hk, List.append_assoc,
      List.singleton_append]

theorem prefix_setItem (d : OrderedDict κ ν) (p : List (κ × ν)) (k : κ) (v : ν)
    (hp : p <+: d.entries) (h : k ∈ p.map Prod.fst → (k, v) ∈ p) :
    p <+: (d.setItem k v).entries := by
  by_cases hk : k ∈ p.map Prod.fst
  · rw [setItem_of_lookup d k v ((d.lookup_eq_some_iff k v).mpr (hp.subset (h hk)))]
    exact hp
  · obtain ⟨r, hr⟩ := hp
    have hset : (d.setItem k v).entries = setEntry k v (p ++ r) := by rw [hr]; rfl
    rw [hset]
    clear hr h hset
    induction p with
    | nil => exact List.nil_prefix
    | cons x xs ih =>
      have hx : x.1 ≠ k := fun he => hk (by simp [he])
      rw [List.cons_append, setEntry, if_neg hx]
      exact List.cons_prefix_cons.mpr ⟨rfl, ih fun hm => hk (List.mem_cons_of_mem _ hm)⟩

/-- An update that agrees with a first part of the dictionary leaves this part in place. -/
theorem prefix_setAll (d : OrderedDict κ ν) (p es : List (κ × ν)) (hp : p <+: d.entries)
    (h : ∀ e ∈ es, e.1 ∈ p.map Prod.fst → e ∈ p) : p <+: (d.setAll es).entries := by
  induction es generalizing d with
  | nil => exact hp
  | cons e es ih =>
    exact ih (d.setItem e.1 e.2) (prefix_setItem d p _ _ hp (h e (by simp)))
      fun x hx => h x (List.mem_cons_of_mem e hx)

theorem setAll_append (d : OrderedDict κ ν) (es fs : List (κ × ν)) :
    d.setAll (es ++ fs) = (d.setAll es).setAll fs := List.foldl_append

/-- An update by a dictionary that goes on from this one. -/
theorem setAll_of_initial (d t : OrderedDict κ ν) (h : d.entries <+: t.entries) :
    d.setAll t.entries = t := by
  obtain ⟨r, hr⟩ := h
  have hown : d.setAll d.entries = d :=
    setAll_of_lookup d d.entries fun e he => (d.lookup_eq_some_iff e.1 e.2).mpr he
  have hnd : (d.keys ++ r.map Prod.fst).Nodup := by
    rw [keys, ← List.map_append, hr]
    exact t.nodup
  apply ext_entries
  rw [← hr, setAll_append, hown, entries_setAll_of_disjoint d r hnd]

omit [DecidableEq κ] in
theorem filterKeys_eq_self (d : OrderedDict κ ν) (p : κ → Bool) (h : ∀ k ∈ d.keys, p k = true) :
    d.filterKeys p = d := by
  apply ext_entries
  exact List.filter_eq_self.mpr fun e he => h e.1 (List.mem_map_of_mem he)

/-- The last entry for the key wins. -/
theorem lookup_setAll (d : OrderedDict κ ν) (es : List (κ × ν)) (k : κ) :
    (d.setAll es).lookup k = (es.reverse.lookup k).or (d.lookup k) := by
  induction es generalizing d with
  | nil => rfl
  | cons e es ih =>
    rw [setAll_cons, ih, lookup_setItem, List.reverse_cons, List.lookup_append, lookup_cons_if]
    cases es.reverse.lookup k <;> by_cases hk : k = e.1 <;> simp [hk]

theorem lookup_eq_head? (l : List (κ × ν)) (k : κ) :
    l.lookup k = ((l.filter (·.1 = k)).head?).map Prod.snd := by
  induction l with
  | nil => rfl
  | cons e l ih =>
    rw [lookup_cons_if]
    by_cases hk : e.1 = k
    · rw [if_pos hk.symm, List.filter_cons_of_pos (by simpa using hk)]
      rfl
    · rw [if_neg (Ne.symm hk), ih, List.filter_cons_of_neg (by simpa using hk)]

theorem lookup_setAll_getLast? (d : OrderedDict κ ν) (es : List (κ × ν)) (k : κ) :
    (d.setAll es).lookup k = (((es.filter (·.1 = k)).getLast?).map Prod.snd).or (d.lookup k) := by
  rw [lookup_setAll, lookup_eq_head?, List.filter_reverse, List.head?_reverse]

theorem filterKeys_setItem_of_not (d : OrderedDict κ ν) (p : κ → Bool) (k : κ) (v : ν)
    (hk : p k = false) : (d.setItem k v).filterKeys p = d.filterKeys p := by
  apply ext_entries
  obtain ⟨l, hl⟩ := d
  simp only [setItem, filterKeys]
  clear hl
  induction l with
  | nil => simp [setEntry, hk]
  | cons e l ih =>
    rw [setEntry]
    split
    case isTrue he =>
      rw [← he] at hk
      simp [hk]
    case isFalse he => rw [List.filter_cons, List.filter_cons, ih]

theorem filterKeys_setAll_of_not (d : OrderedDict κ ν) (p : κ → Bool) (es : List (κ × ν))
    (hes : ∀ e ∈ es, p e.1 = false) : (d.setAll es).filterKeys p = d.filterKeys p := by
  induction es generalizing d with
  | nil => rfl
  | cons e es ih =>
    rw [setAll_cons, ih _ fun x hx => hes x (List.mem_cons_of_mem e hx)]
    exact filterKeys_setItem_of_not d p e.1 e.2 (hes e (by simp))

theorem filterKeys_setItem_of (d : OrderedDict κ ν) (p : κ → Bool) (k : κ) (v : ν)
    (hk : p k = true) : (d.setItem k v).filterKeys p = (d.filterKeys p).setItem k v := by
  apply ext_entries
  obtain ⟨l, hl⟩ := d
  simp only [setItem, filterKeys]
  clear hl
  induction l with
  | nil => simp [setEntry, hk]
  | cons e l ih =>
    by_cases he : e.1 = k
    · simp [setEntry, he, hk]
    · rw [setEntry, if_neg he, List.filter_cons, List.filter_cons, ih]
      split
      · rw [setEntry, if_neg he]
      · rfl

theorem filterKeys_setAll_of (d : OrderedDict κ ν) (p : κ → Bool) (es : List (κ × ν))
    (hes : ∀ e ∈ es, p e.1 = true) : (d.setAll es).filterKeys p = (d.filterKeys p).setAll es := by
  induction es generalizing d with
  | nil => rfl
  | cons e es ih =>
    rw [setAll_cons, ih _ fun x hx => hes x (List.mem_cons_of_mem e hx), setAll_cons,
      filterKeys_setItem_of d p e.1 e.2 (hes e (by simp))]

theorem setItem_setItem (d : OrderedDict κ ν) (k : κ) (v w : ν) :
    (d.setItem k v).setItem k w = d.setItem k w := by
  apply ext_entries
  obtain ⟨l, hl⟩ := d
  simp only [setItem]
  clear hl
  induction l with
  | nil => simp [setEntry]
  | cons e l ih =>
    by_cases he : e.1 = k
    · simp [setEntry, he]
    · simp [setEntry, he, ih]

theorem empty_setAll_entries (es : List (κ × ν)) (h : (es.map Prod.fst).Nodup) :
    ((∅ : OrderedDict κ ν).setAll es).entries = es := by
  rw [entries_setAll_of_disjoint ∅ es (by simpa using h)]
  rfl

/-- An update with other keys for those of a dictionary. -/
theorem lookup_setAll_map {μ : Type*} [DecidableEq μ] (d : OrderedDict κ ν) (t : OrderedDict μ ν)
    (f : μ → κ) (hf : Function.Injective f) (x : μ) :
    (d.setAll (t.entries.map fun e => (f e.1, e.2))).lookup (f x) =
      (t.lookup x).or (d.lookup (f x)) := by
  by_cases hx : x ∈ t.keys
  · have hmem : f x ∈ (t.entries.map fun e => (f e.1, e.2)).map Prod.fst := by
      rw [List.map_map]
      obtain ⟨e, he, rfl⟩ := List.mem_map.mp hx
      exact List.mem_map.mpr ⟨e, he, rfl⟩
    obtain ⟨v, hv, hm⟩ := lookup_setAll_of_mem d _ (f x) hmem
    obtain ⟨e, he, heq⟩ := List.mem_map.mp hm
    obtain ⟨hkey, rfl⟩ := Prod.mk.inj heq
    obtain rfl := hf hkey
    rw [hv, (lookup_eq_some_iff t e.1 e.2).mpr he, Option.some_or]
  · rw [(lookup_eq_none_iff t x).mpr hx, Option.none_or]
    refine lookup_setAll_of_not_mem d _ _ fun hm => hx ?_
    obtain ⟨e, he, hkey⟩ := List.mem_map.mp hm
    obtain ⟨e', he', rfl⟩ := List.mem_map.mp he
    rw [← hf hkey]
    exact List.mem_map_of_mem he'

/-- Dictionaries are equal for Python when their entries are, in whatever order. -/
theorem perm_of_lookup (d t : OrderedDict κ ν) (h : ∀ k, d.lookup k = t.lookup k) :
    d.entries.Perm t.entries := by
  refine (List.perm_ext_iff_of_nodup (List.Nodup.of_map _ d.nodup)
    (List.Nodup.of_map _ t.nodup)).mpr fun e => ?_
  rw [← lookup_eq_some_iff d e.1 e.2, ← lookup_eq_some_iff t e.1 e.2, h e.1]

def mapValues {μ : Type*} (d : OrderedDict κ ν) (f : ν → μ) : OrderedDict κ μ :=
  ⟨d.entries.map fun e => (e.1, f e.2), by
    have hkeys : (d.entries.map fun e => (e.1, f e.2)).map Prod.fst = d.keys := by simp [keys]
    rw [hkeys]
    exact d.nodup⟩

@[simp] theorem lookup_mapValues {μ : Type*} (d : OrderedDict κ ν) (f : ν → μ) (k : κ) :
    (d.mapValues f).lookup k = (d.lookup k).map f :=
  lookup_map_snd (fun _ => f) d.entries k

/-- `d[k].append(v)`, where a missing key starts with the empty list. -/
def append (d : OrderedDict κ (List ν)) (k : κ) (v : ν) : OrderedDict κ (List ν) :=
  d.setItem k ((d.lookup k).getD [] ++ [v])

def appendAll (d : OrderedDict κ (List ν)) (es : List (κ × ν)) : OrderedDict κ (List ν) :=
  es.foldl (fun acc e => acc.append e.1 e.2) d

theorem appendAll_append (d : OrderedDict κ (List ν)) (es fs : List (κ × ν)) :
    d.appendAll (es ++ fs) = (d.appendAll es).appendAll fs := List.foldl_append

/-- Under a key lie the values that were appended to it, in order. -/
theorem lookup_appendAll (d : OrderedDict κ (List ν)) (es : List (κ × ν)) (k : κ) :
    (d.appendAll es).lookup k =
      if es.filter (·.1 = k) = [] then d.lookup k
      else some ((d.lookup k).getD [] ++ (es.filter (·.1 = k)).map Prod.snd) := by
  induction es generalizing d with
  | nil => rfl
  | cons e es ih =>
    have hstep : d.appendAll (e :: es) = (d.append e.1 e.2).appendAll es := rfl
    rw [hstep, ih, append, lookup_setItem]
    by_cases hk : e.1 = k
    · rw [List.filter_cons_of_pos (by simpa using hk), if_pos hk.symm, hk]
      by_cases hn : es.filter (·.1 = k) = []
      · simp [hn]
      · simp [hn]
    · rw [List.filter_cons_of_neg (by simpa using hk), if_neg (Ne.symm hk)]

/-- Every value replaced in its place. -/
def mapItems {μ : Type*} (d : OrderedDict κ ν) (f : κ → ν → μ) : OrderedDict κ μ :=
  ⟨d.entries.map fun e => (e.1, f e.1 e.2), by
    have hkeys : (d.entries.map fun e => (e.1, f e.1 e.2)).map Prod.fst = d.keys := by simp [keys]
    rw [hkeys]
    exact d.nodup⟩

@[simp] theorem lookup_mapItems {μ : Type*} (d : OrderedDict κ ν) (f : κ → ν → μ) (k : κ) :
    (d.mapItems f).lookup k = (d.lookup k).map (f k) :=
  lookup_map_snd f d.entries k

omit [DecidableEq κ] in
@[simp] theorem keys_mapItems {μ : Type*} (d : OrderedDict κ ν) (f : κ → ν → μ) :
    (d.mapItems f).keys = d.keys := by
  simp [keys, mapItems]

omit [DecidableEq κ] in
theorem mapItems_mapItems {μ ξ : Type*} (d : OrderedDict κ ν) (f : κ → ν → μ) (g : κ → μ → ξ) :
    (d.mapItems f).mapItems g = d.mapItems fun k v => g k (f k v) :=
  ext_entries (by simp [mapItems])

omit [DecidableEq κ] in
theorem mapItems_self (d : OrderedDict κ ν) : (d.mapItems fun _ v => v) = d :=
  ext_entries (by simp [mapItems])

theorem mapItems_congr {μ : Type*} {d : OrderedDict κ ν} {f g : κ → ν → μ}
    (h : ∀ k v, d.lookup k = some v → f k v = g k v) : d.mapItems f = d.mapItems g := by
  refine ext_entries (List.map_congr_left fun e he => ?_)
  rw [h e.1 e.2 ((d.lookup_eq_some_iff e.1 e.2).mpr he)]

theorem setEntry_eq_map (k : κ) (v : ν) (l : List (κ × ν)) (hk : k ∈ l.map Prod.fst)
    (hnd : (l.map Prod.fst).Nodup) :
    setEntry k v l = l.map fun e => (e.1, if e.1 = k then v else e.2) := by
  induction l with
  | nil => simp at hk
  | cons p ps ih =>
    obtain ⟨hp, hps⟩ := List.nodup_cons.mp hnd
    rw [setEntry, List.map_cons]
    by_cases he : p.1 = k
    · have hrest : ps.map (fun e => (e.1, if e.1 = k then v else e.2)) = ps := by
        refine (List.map_congr_left fun e hm => ?_).trans ps.map_id
        have hne : e.1 ≠ k := fun h => hp (he.trans h.symm ▸ List.mem_map_of_mem hm)
        rw [if_neg hne, id]
      rw [if_pos he, if_pos he, hrest]
    · have hk' : k ∈ ps.map Prod.fst := by simpa [Ne.symm he] using hk
      rw [if_neg he, if_neg he, ih hk' hps]

/-- Assigning to a key that is present replaces its value in its place. -/
theorem setItem_eq_mapItems (d : OrderedDict κ ν) (k : κ) (v : ν) (hk : k ∈ d.keys) :
    d.setItem k v = d.mapItems fun x w => if x = k then v else w :=
  ext_entries (setEntry_eq_map k v d.entries hk d.nodup)

end OrderedDict

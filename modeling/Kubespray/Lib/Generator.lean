import Mathlib.Data.List.Basic

/-! Generators: what they yield before they end, and the exception that ends them, if any. -/
structure Generator (ε α : Type*) where
  items : List α
  raises : Option ε

namespace Generator
variable {ε α β : Type*}

def ofList (l : List α) : Generator ε α := ⟨l, none⟩

/-- `yield from g`, then `yield from h` -/
def append (g h : Generator ε α) : Generator ε α :=
  match g.raises with
  | some e => ⟨g.items, some e⟩
  | none => ⟨g.items ++ h.items, h.raises⟩

/-- `list(g)` -/
def toList (g : Generator ε α) : Except ε (List α) :=
  match g.raises with
  | some e => .error e
  | none => .ok g.items

/-- Goes through the items of another generator, which raises `e?` at its end: what `f` leaves
out is not yielded, what `f` raises ends the generator. -/
def through (f : α → Except ε (Option β)) (e? : Option ε) : List α → Generator ε β
  | [] => ⟨[], e?⟩
  | a :: l =>
    match f a with
    | .error e => ⟨[], some e⟩
    | .ok none => through f e? l
    | .ok (some b) => ⟨b :: (through f e? l).items, (through f e? l).raises⟩

def filterMapM (f : α → Except ε (Option β)) (g : Generator ε α) : Generator ε β :=
  through f g.raises g.items

def mapM (f : α → Except ε β) (g : Generator ε α) : Generator ε β :=
  g.filterMapM fun a => (f a).map some

theorem toList_eq_ok_iff (g : Generator ε α) (l : List α) :
    g.toList = .ok l ↔ g.raises = none ∧ g.items = l := by
  rw [toList]
  cases g.raises <;> simp

/-- Where `f` does not raise, what it gives is yielded. -/
theorem through_of_ok {f : α → Except ε (Option β)} {u : α → Option β} (e? : Option ε) (l : List α)
    (h : ∀ a ∈ l, f a = .ok (u a)) : through f e? l = ⟨l.filterMap u, e?⟩ := by
  induction l with
  | nil => rfl
  | cons a l ih =>
    rw [through, h a (by simp), ih fun x hx => h x (List.mem_cons_of_mem a hx)]
    cases hu : u a with
    | none => simp [hu]
    | some b => simp [hu]

/-- A generator that ends without an exception has met none on the way. -/
theorem ok_of_through {f : α → Except ε (Option β)} {e? : Option ε} {l : List α}
    (h : (through f e? l).raises = none) : e? = none ∧ ∀ a ∈ l, ∃ b?, f a = .ok b? := by
  induction l with
  | nil => exact ⟨h, by simp⟩
  | cons a l ih =>
    rw [through] at h
    cases hf : f a with
    | error e => simp [hf] at h
    | ok b? =>
      have hrest : (through f e? l).raises = none := by
        cases b? with
        | none => simpa [hf] using h
        | some b => simpa [hf] using h
      obtain ⟨he, hall⟩ := ih hrest
      refine ⟨he, fun x hx => ?_⟩
      rcases List.mem_cons.mp hx with rfl | hx
      · exact ⟨b?, hf⟩
      · exact hall x hx

theorem mem_through {f : α → Except ε (Option β)} {e? : Option ε} {l : List α}
    (h : (through f e? l).raises = none) (b : β) :
    b ∈ (through f e? l).items ↔ ∃ a ∈ l, f a = .ok (some b) := by
  have hok := (ok_of_through h).2
  have hu : ∀ a ∈ l, f a = .ok ((f a).toOption.join) := by
    intro a ha
    obtain ⟨b?, hb⟩ := hok a ha
    rw [hb]
    rfl
  rw [through_of_ok e? l hu, List.mem_filterMap]
  refine exists_congr fun a => and_congr_right fun ha => ?_
  rw [hu a ha]
  simp [Except.toOption]

theorem through_congr {f g : α → Except ε (Option β)} {e? : Option ε} {l : List α}
    (h : ∀ a ∈ l, f a = g a) : through f e? l = through g e? l := by
  induction l with
  | nil => rfl
  | cons a l ih => rw [through, through, h a (by simp), ih fun x hx => h x (List.mem_cons_of_mem a hx)]

theorem through_map {γ : Type*} (f : α → Except ε (Option β)) (g : γ → α) (e? : Option ε)
    (l : List γ) : through f e? (l.map g) = through (fun c => f (g c)) e? l := by
  induction l with
  | nil => rfl
  | cons c l ih => rw [List.map_cons, through, through, ih]

/-- What `list` makes of going through a list: nothing where some item is refused. -/
theorem toOption_through (f : α → Except ε (Option β)) (l : List α) :
    (through f none l).toList.toOption =
      if ∀ a ∈ l, (f a).toOption.isSome then some (l.filterMap fun a => (f a).toOption.join)
      else none := by
  by_cases hok : ∀ a ∈ l, (f a).toOption.isSome
  · have hu : ∀ a ∈ l, f a = .ok ((f a).toOption.join) := by
      intro a ha
      have h := hok a ha
      cases hf : f a with
      | error e => simp [hf, Except.toOption] at h
      | ok b? => rfl
    rw [if_pos hok, through_of_ok none l hu]
    rfl
  · rw [if_neg hok, toList]
    cases hr : (through f none l).raises with
    | some e => rfl
    | none =>
      refine absurd (fun a ha => ?_) hok
      obtain ⟨b?, hb⟩ := (ok_of_through hr).2 a ha
      rw [hb]
      rfl

theorem length_filterMap_guard_le (p : α → Bool) (u : α → Option β) (l : List α) :
    (l.filterMap fun a => if p a then u a else none).length ≤ (l.filterMap u).length := by
  induction l with
  | nil => exact Nat.le_refl 0
  | cons a l ih =>
    rw [List.filterMap_cons, List.filterMap_cons]
    cases p a <;> cases u a <;> simp <;> omega

theorem filterMap_guard_eq_iff (p : α → Bool) (u : α → Option β) (l : List α) :
    l.filterMap u = l.filterMap (fun a => if p a then u a else none) ↔
      ∀ a ∈ l, p a = false → u a = none := by
  constructor
  · intro h
    induction l with
    | nil => simp
    | cons a l ih =>
      have hle := length_filterMap_guard_le p u l
      rw [List.filterMap_cons, List.filterMap_cons] at h
      cases hp : p a with
      | true =>
        have hrest : l.filterMap u = l.filterMap fun a => if p a then u a else none := by
          cases hu : u a <;> simpa [hp, hu] using h
        simpa [hp] using ih hrest
      | false =>
        cases hu : u a with
        | none => simpa [hp, hu] using ih (by simpa [hp, hu] using h)
        | some b =>
          have hlen := congrArg List.length h
          simp [hp, hu] at hlen
          omega
  · intro h
    refine List.filterMap_congr fun a ha => ?_
    cases hp : p a with
    | true => rfl
    | false => exact h a ha hp

/-- The same of a list that is gone through without the items that `p` refuses. -/
theorem toOption_through_guard (p : α → Bool) (f : α → Except ε (Option β)) (l : List α) :
    (through (fun a => if p a then f a else .ok none) none l).toList.toOption =
      if ∀ a ∈ l, p a = true → (f a).toOption.isSome then
        some (l.filterMap fun a => if p a then (f a).toOption.join else none)
      else none := by
  have hsome : ∀ a, (if p a then f a else .ok none : Except ε (Option β)).toOption.isSome ↔
      (p a = true → (f a).toOption.isSome) := by
    intro a
    cases p a <;> simp [Except.toOption]
  have hjoin : ∀ a, (if p a then f a else .ok none : Except ε (Option β)).toOption.join =
      if p a then (f a).toOption.join else none := by
    intro a
    cases p a <;> rfl
  rw [toOption_through]
  simp only [hsome, hjoin]

theorem eq_ok_none_iff {x : Except ε (Option β)} :
    x = .ok none ↔ x.toOption.isSome ∧ x.toOption.join = none := by
  cases x with
  | error e => simp [Except.toOption]
  | ok b? => simp [Except.toOption]

/-- Leaving out the items that `p` refuses makes no difference exactly when these yield nothing,
or going through the others raises anyway. -/
theorem through_guard_iff (p : α → Bool) (f : α → Except ε (Option β)) (l : List α) :
    (through f none l).toList.toOption =
        (through (fun a => if p a then f a else .ok none) none l).toList.toOption ↔
      (∃ a ∈ l, p a = true ∧ (f a).toOption = none) ∨
        ∀ a ∈ l, p a = false → f a = .ok none := by
  rw [toOption_through, toOption_through_guard]
  by_cases hbad : ∃ a ∈ l, p a = true ∧ (f a).toOption = none
  · obtain ⟨a, ha, hp, hf⟩ := hbad
    have h1 : ¬ ∀ a ∈ l, (f a).toOption.isSome := fun h => by simpa [hf] using h a ha
    have h2 : ¬ ∀ a ∈ l, p a = true → (f a).toOption.isSome := fun h => by simpa [hf] using h a ha hp
    rw [if_neg h1, if_neg h2]
    exact ⟨fun _ => .inl ⟨a, ha, hp, hf⟩, fun _ => rfl⟩
  · have h2 : ∀ a ∈ l, p a = true → (f a).toOption.isSome := fun a ha hp =>
      Option.isSome_iff_ne_none.mpr fun hf => hbad ⟨a, ha, hp, hf⟩
    rw [if_pos h2, or_iff_right hbad]
    constructor
    · intro h a ha hp
      by_cases h1 : ∀ a ∈ l, (f a).toOption.isSome
      · rw [if_pos h1, Option.some.injEq, filterMap_guard_eq_iff] at h
        exact eq_ok_none_iff.mpr ⟨h1 a ha, h a ha hp⟩
      · rw [if_neg h1] at h
        cases h
    · intro h
      have h1 : ∀ a ∈ l, (f a).toOption.isSome := by
        intro a ha
        cases hp : p a with
        | true => exact h2 a ha hp
        | false => exact (eq_ok_none_iff.mp (h a ha hp)).1
      rw [if_pos h1, Option.some.injEq, filterMap_guard_eq_iff]
      exact fun a ha hp => (eq_ok_none_iff.mp (h a ha hp)).2

theorem mapM_of_ok {f : α → Except ε β} {u : α → β} (g : Generator ε α)
    (h : ∀ a ∈ g.items, f a = .ok (u a)) : g.mapM f = ⟨g.items.map u, g.raises⟩ := by
  have hsome : ∀ a ∈ g.items, (f a).map some = .ok (some (u a)) := by
    intro a ha
    rw [h a ha]
    rfl
  rw [mapM, filterMapM, through_of_ok (u := fun a => some (u a)) g.raises g.items hsome,
    List.filterMap_eq_map']

theorem ok_of_mapM {f : α → Except ε β} {g : Generator ε α} (h : (g.mapM f).raises = none) :
    g.raises = none ∧ ∀ a ∈ g.items, ∃ b, f a = .ok b := by
  obtain ⟨he, hall⟩ := ok_of_through h
  refine ⟨he, fun a ha => ?_⟩
  obtain ⟨b?, hb⟩ := hall a ha
  cases hf : f a with
  | error e => simp [hf, Except.map] at hb
  | ok b => exact ⟨b, rfl⟩

end Generator

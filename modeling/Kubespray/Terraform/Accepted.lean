import Kubespray.Terraform.FlatForm

/-! Which attributes convert_to_v3_structure takes, and what one instance that it does not take
does to the reading of a whole state of version 4. -/
namespace Kubespray.Terraform

def Json.isTextOrObject : Json → Bool
  | .str _ => true
  | .obj _ => true
  | _ => false

/-- The items of the lists among the attributes, and of the lists in objects that are such items.
An object that is an attribute itself is not looked into. -/
inductive ListItem : List (String × Json) → Json → Prop
  | item {fields : List (String × Json)} {key : String} {items : List Json} {v : Json} :
      (key, .arr items) ∈ fields → v ∈ items → ListItem fields v
  | inside {fields : List (String × Json)} {key : String} {items : List Json}
      {inner : List (String × Json)} {v : Json} :
      (key, .arr items) ∈ fields → .obj inner ∈ items → ListItem inner v → ListItem fields v

/-- All items of lists are texts or objects. -/
def ItemsTaken (fields : List (String × Json)) : Prop := ∀ v, ListItem fields v → v.isTextOrObject = true

def ItemTaken (v : Json) : Prop :=
  v.isTextOrObject = true ∧ ∀ inner, v = .obj inner → ItemsTaken inner

theorem itemsTaken_iff (fields : List (String × Json)) :
    ItemsTaken fields ↔ ∀ key items, (key, Json.arr items) ∈ fields → ∀ v ∈ items, ItemTaken v := by
  constructor
  · intro h key items hfield v hv
    refine ⟨h v (.item hfield hv), ?_⟩
    rintro inner rfl w hw
    exact h w (.inside hfield hv hw)
  · intro h v hv
    cases hv with
    | item hfield hv => exact (h _ _ hfield v hv).1
    | inside hfield hin hv => exact (h _ _ hfield _ hin).2 _ rfl v hv

mutual

theorem convertible_iff (v : Json) : convertible v = true ↔ ItemTaken v := by
  cases v with
  | obj fields =>
    rw [convertible, convertibleFields_iff fields]
    constructor
    · intro h
      refine ⟨rfl, ?_⟩
      rintro inner heq
      rwa [← Json.obj.inj heq]
    · exact fun h => h.2 fields rfl
  | str s => simp [convertible, ItemTaken, Json.isTextOrObject]
  | null => simp [convertible, ItemTaken, Json.isTextOrObject]
  | bool b => simp [convertible, ItemTaken, Json.isTextOrObject]
  | num n => simp [convertible, ItemTaken, Json.isTextOrObject]
  | float repr => simp [convertible, ItemTaken, Json.isTextOrObject]
  | arr items => simp [convertible, ItemTaken, Json.isTextOrObject]

theorem convertibleFields_iff (fields : List (String × Json)) :
    convertibleFields fields = true ↔ ItemsTaken fields := by
  rw [itemsTaken_iff]
  match fields with
  | [] => simp [convertibleFields]
  | (key, value) :: fields =>
    rw [convertibleFields, Bool.and_eq_true, convertibleField_iff value,
      convertibleFields_iff fields, itemsTaken_iff]
    constructor
    · intro h name items hmem
      cases List.mem_cons.mp hmem with
      | inl heq => exact h.1 items (Prod.mk.inj heq).2.symm
      | inr hmem => exact h.2 name items hmem
    · intro h
      refine ⟨?_, fun name items hmem => h name items (List.mem_cons_of_mem _ hmem)⟩
      rintro items rfl
      exact h key items (by simp)

theorem convertibleField_iff (value : Json) : convertibleField value = true ↔
    ∀ items, value = .arr items → ∀ v ∈ items, ItemTaken v := by
  cases value with
  | arr items =>
    rw [convertibleField, convertibleItems_iff items]
    constructor
    · intro h items' heq
      rwa [← Json.arr.inj heq]
    · exact fun h => h items rfl
  | null => simp [convertibleField]
  | bool b => simp [convertibleField]
  | num n => simp [convertibleField]
  | float repr => simp [convertibleField]
  | str s => simp [convertibleField]
  | obj fields => simp [convertibleField]

theorem convertibleItems_iff (items : List Json) :
    convertibleItems items = true ↔ ∀ v ∈ items, ItemTaken v := by
  match items with
  | [] => simp [convertibleItems]
  | v :: items =>
    rw [convertibleItems, Bool.and_eq_true, convertible_iff v, convertibleItems_iff items,
      List.forall_mem_cons]

end

section Reading
variable (py : Python) (random : Nat → Nat)

theorem converts_iff (fields : List (String × Json)) (n : Nat) :
    (∃ r, convertToV3Structure random (.obj fields) "" n = .ok r) ↔ ItemsTaken fields := by
  have hisOk := convertToV3Structure_isOk random (.obj fields) "" n
  rw [convertible] at hisOk
  rw [← convertibleFields_iff, ← hisOk]
  cases convertToV3Structure random (.obj fields) "" n with
  | error e => simp [Except.isOk, Except.toBool]
  | ok r => simp [Except.isOk, Except.toBool]

/-- The reading of a state of version 4 ends without an exception when all instances are taken,
whatever their types. -/
theorem iterInstances_raises_iff (l : List (ResourceV4 × Instance)) (n : Nat) :
    (iterInstances py random l n).1.raises = none ↔
      ∀ p ∈ l, ItemsTaken p.2.attributes.entries := by
  induction l generalizing n with
  | nil => simp [iterInstances]
  | cons p l ih =>
    obtain ⟨r, i⟩ := p
    rw [iterInstances, List.forall_mem_cons, ← converts_iff random _ n]
    cases convertToV3Structure random (.obj i.attributes.entries) "" n with
    | error e => simp
    | ok c =>
      rw [ih c.2]
      exact (and_iff_right ⟨c, rfl⟩).symm

/-- The attributes are converted to a mapping, and no instance that has them keeps a state from
being read whose other instances are converted. -/
structure Accepts (attrs : Attrs) : Prop where
  converts : ∀ n, ∃ r, convertToV3Structure random (.obj attrs.entries) "" n = .ok r
  others : ∀ (l l' : List (ResourceV4 × Instance)) (resource : ResourceV4) (indexKey : Option Json)
    (n : Nat), (iterInstances py random (l ++ l') n).1.raises = none →
      (iterInstances py random (l ++ (resource, ⟨indexKey, attrs⟩) :: l') n).1.raises = none

theorem acceptsAttrs_iff (attrs : Attrs) : Accepts py random attrs ↔
    ∀ v, ListItem attrs.entries v → v.isTextOrObject = true := by
  constructor
  · exact fun h => (converts_iff random attrs.entries 0).mp (h.converts 0)
  · intro h
    refine ⟨fun n => (converts_iff random attrs.entries n).mpr h, fun l l' resource indexKey n hl => ?_⟩
    rw [iterInstances_raises_iff] at hl ⊢
    intro p hp
    rw [List.mem_append, List.mem_cons, or_left_comm, ← List.mem_append] at hp
    cases hp with
    | inl hp => rwa [hp]
    | inr hp => exact hl p hp

/-- The rules of a security group may well have port numbers. -/
def portAttrs : Attrs := (∅ : Attrs).setItem "ports" (.arr [.num 22, .num 80])

theorem portAttrs_not_accepted : ¬ ∀ attrs : Attrs, Accepts scalarPython (fun _ => 7) attrs := by
  intro h
  obtain ⟨r, hr⟩ := (h portAttrs).converts 0
  cases hr

end Reading

end Kubespray.Terraform

import Kubespray.Terraform.Accepted

/-! Lists in the flat form: the keys that convert_to_v3_structure gives to the items of a list,
and how parse_list and parse_attr_list put the items together again. -/
namespace Kubespray.Terraform

/-- Some entries for each item of a list: `0.key`, `1.key` and so on behind the prefix. -/
def indexed (pre : String) : Nat → List (List (String × Json)) → List (String × Json)
  | _, [] => []
  | i, b :: bs =>
    b.map (fun e => (pre ++ toString i ++ "." ++ e.1, e.2)) ++ indexed pre (i + 1) bs

theorem indexed_values (pre : String) (i : Nat) (bs : List (List (String × Json))) :
    (indexed pre i bs).map Prod.snd = bs.flatten.map Prod.snd := by
  induction bs generalizing i with
  | nil => rfl
  | cons b bs ih => simp [indexed, ih, Function.comp_def]

theorem mem_indexed_keys {pre : String} {i : Nat} {bs : List (List (String × Json))} {y : String}
    (hy : y ∈ (indexed pre i bs).map Prod.fst) :
    ∃ j, i ≤ j ∧ ∃ rest, y = pre ++ toString j ++ "." ++ rest := by
  induction bs generalizing i with
  | nil => cases hy
  | cons b bs ih =>
    rw [indexed, List.map_append, List.mem_append] at hy
    cases hy with
    | inl hy =>
      obtain ⟨e, he, rfl⟩ := List.mem_map.mp hy
      obtain ⟨f, -, rfl⟩ := List.mem_map.mp he
      exact ⟨i, Nat.le_refl i, f.1, rfl⟩
    | inr hy =>
      obtain ⟨j, hj, rest, rfl⟩ := ih hy
      exact ⟨j, by omega, rest, rfl⟩

theorem dot_not_mem_toString (i : Nat) : '.' ∉ (toString i).toList := by
  have h : (toString i).toList = Nat.toDigits 10 i := Nat.toList_repr
  rw [h]
  exact not_mem_toDigits (by decide)

theorem splitKey_index (i : Nat) (rest : String) :
    splitKey '.' (toString i ++ "." ++ rest) = some (toString i, rest) :=
  (splitKey_eq_some_iff _ _ _).mpr ⟨dot_not_mem_toString i, rfl⟩

/-- No item is taken for the count of the items. -/
theorem index_ne_count (i : Nat) (rest : String) : toString i ++ "." ++ rest ≠ "#" := by
  intro heq
  have hdot : '.' ∈ (toString i ++ "." ++ rest).toList := by simp
  rw [heq] at hdot
  cases List.mem_singleton.mp hdot

/-- What stands behind the prefix tells the index. -/
theorem index_eq {pre : String} {i j : Nat} {x y : String}
    (h : pre ++ toString i ++ "." ++ x = pre ++ toString j ++ "." ++ y) : i = j := by
  have htail : toString i ++ "." ++ x = toString j ++ "." ++ y := by
    simpa only [String.append_assoc, String.append_right_inj] using h
  have hs := splitKey_index i x
  rw [htail, splitKey_index j y] at hs
  exact (toString_nat_injective (Prod.mk.inj (Option.some.inj hs)).1).symm

theorem indexed_keys_nodup (pre : String) (i : Nat) (bs : List (List (String × Json)))
    (hbs : ∀ b ∈ bs, (b.map Prod.fst).Nodup) : ((indexed pre i bs).map Prod.fst).Nodup := by
  induction bs generalizing i with
  | nil => simp [indexed]
  | cons b bs ih =>
    rw [indexed, List.map_append, List.nodup_append]
    refine ⟨?_, ih (i + 1) fun x hx => hbs x (List.mem_cons_of_mem b hx), ?_⟩
    · have hkeys : (b.map fun e => (pre ++ toString i ++ "." ++ e.1, e.2)).map Prod.fst =
          (b.map Prod.fst).map fun x => pre ++ toString i ++ "." ++ x := by simp
      rw [hkeys]
      exact (hbs b (by simp)).map fun x y hxy => (String.append_right_inj _).mp hxy
    · intro x hx y hy heq
      obtain ⟨e, he, rfl⟩ := List.mem_map.mp hx
      obtain ⟨f, -, rfl⟩ := List.mem_map.mp he
      obtain ⟨j, hj, rest, rfl⟩ := mem_indexed_keys hy
      have hij := index_eq heq
      omega

section Converting
variable (random : Nat → Nat)

def Json.isScalar : Json → Bool
  | .arr _ => false
  | .obj _ => false
  | _ => true

/-- A map without lists and maps in it, and not empty. -/
structure FlatMap where
  map : Attrs
  nonempty : map.keys ≠ []
  scalars : ∀ e ∈ map.entries, e.2.isScalar = true

theorem convertFields_scalars (fields : List (String × Json)) (pre : String) (result : Attrs) (n : Nat)
    (h : ∀ e ∈ fields, e.2.isScalar = true) : convertFields random fields pre result n =
      .ok (result.setAll (fields.map fun e => (pre ++ e.1, e.2)), n) := by
  induction fields generalizing result with
  | nil => rfl
  | cons e fields ih =>
    have hfield : convertField random e.1 e.2 pre result n =
        .ok (result.setItem (pre ++ e.1) e.2, n) := by
      have hscalar := h e (by simp)
      cases he : e.2 with
      | arr items => simp [he, Json.isScalar] at hscalar
      | obj fields => simp [he, Json.isScalar] at hscalar
      | null => rfl
      | bool b => rfl
      | num n => rfl
      | float repr => rfl
      | str s => rfl
    rw [convertFields, hfield]
    exact ih _ fun x hx => h x (List.mem_cons_of_mem e hx)

/-- The entries that the conversion makes of an item: a text gets a random name. -/
def BlockOf (v : Json) (b : List (String × Json)) : Prop :=
  (∃ s x, v = .str s ∧ b = [(x, .str s)]) ∨ ∃ m : FlatMap, v = .obj m.map.entries ∧ b = m.map.entries

theorem BlockOf.nodup {v : Json} {b : List (String × Json)} (h : BlockOf v b) :
    (b.map Prod.fst).Nodup := by
  cases h with
  | inl h =>
    obtain ⟨s, x, -, rfl⟩ := h
    simp
  | inr h =>
    obtain ⟨m, -, rfl⟩ := h
    exact m.map.nodup

theorem blocks_nodup {items : List Json} {bs : List (List (String × Json))}
    (h : List.Forall₂ BlockOf items bs) : ∀ b ∈ bs, (b.map Prod.fst).Nodup := by
  induction h with
  | nil => simp
  | cons hb _ ih => exact List.forall_mem_cons.mpr ⟨hb.nodup, ih⟩

/-- One item is converted to its entries, under the prefix. -/
theorem convertToV3Structure_block (v : Json) (hv : ∃ b, BlockOf v b) (pre : String) (n : Nat) :
    ∃ b, BlockOf v b ∧ ∃ d n', convertToV3Structure random v pre n = .ok (d, n') ∧
      d.entries = b.map fun e => (pre ++ e.1, e.2) := by
  obtain ⟨b, hb⟩ := hv
  cases hb with
  | inl hb =>
    obtain ⟨s, -, rfl, -⟩ := hb
    exact ⟨_, .inl ⟨s, toString (random n), rfl, rfl⟩, _, _, rfl, rfl⟩
  | inr hb =>
    obtain ⟨m, rfl, rfl⟩ := hb
    refine ⟨_, .inr ⟨m, rfl, rfl⟩, _, n, convertFields_scalars random _ pre ∅ n m.scalars, ?_⟩
    refine OrderedDict.empty_setAll_entries _ ?_
    rw [List.map_map]
    have hkeys := m.map.nodup.map fun x y hxy => (String.append_right_inj pre).mp hxy
    rwa [List.map_map] at hkeys

theorem convertItems_blocks (key : String) (items : List Json) (i : Nat) (pre : String) (n : Nat)
    (hitems : ∀ v ∈ items, ∃ b, BlockOf v b) :
    ∃ bs n', List.Forall₂ BlockOf items bs ∧ ∀ result : Attrs,
      convertItems random key items i pre result n =
        .ok (result.setAll (indexed (pre ++ key ++ ".") i bs), n') := by
  induction items generalizing i n with
  | nil => exact ⟨[], n, .nil, fun result => rfl⟩
  | cons v items ih =>
    obtain ⟨b, hb, d, n1, hconv, hd⟩ := convertToV3Structure_block random v (hitems v (by simp))
      (pre ++ key ++ "." ++ toString i ++ ".") n
    obtain ⟨bs, n2, hbs, hrest⟩ := ih (i + 1) n1 fun x hx => hitems x (List.mem_cons_of_mem v hx)
    refine ⟨b :: bs, n2, .cons hb hbs, fun result => ?_⟩
    rw [convertItems, hconv]
    change convertItems random key items (i + 1) pre (result.setAll d.entries) n1 = _
    rw [hrest, hd, indexed, OrderedDict.setAll_append]

end Converting

section Reading

/-- What parsePrefix makes of one entry. -/
def partEntry (k : String) (e : String × Json) : Option (String × Json) :=
  match splitKey '.' e.1 with
  | none => none
  | some (cur, rest) => if cur ≠ k ∨ rest = "#" then none else some (rest, e.2)

theorem parsePrefix_eq (source : Attrs) (k : String) :
    parsePrefix source k '.' = source.entries.filterMap (partEntry k) := rfl

theorem partEntry_part {k : String} (hk : '.' ∉ k.toList) (x : String) (v : Json) :
    partEntry k (k ++ "." ++ x, v) = if x = "#" then none else some (x, v) := by
  have hs : splitKey '.' (k ++ "." ++ x) = some (k, x) := (splitKey_eq_some_iff _ _ _).mpr ⟨hk, rfl⟩
  rw [partEntry, hs]
  simp

/-- Only the parts of the attribute count. -/
theorem parsePrefix_filterKeys (source : Attrs) (k : String) :
    parsePrefix (source.filterKeys (partOf k)) k '.' = parsePrefix source k '.' := by
  have hentries : (source.filterKeys (partOf k)).entries =
      source.entries.filter fun e => partOf k e.1 := rfl
  rw [parsePrefix_eq, parsePrefix_eq, hentries, List.filterMap_filter]
  refine List.filterMap_congr fun e _ => ?_
  rw [partEntry, partOf]
  cases hs : splitKey '.' e.1 with
  | none => simp
  | some c =>
    by_cases hc : c.1 = k
    · simp [hc]
    · simp [hc]

theorem filterMap_indexed (k : String) (hk : '.' ∉ k.toList) (i : Nat)
    (bs : List (List (String × Json))) :
    (indexed (k ++ ".") i bs).filterMap (partEntry k) = indexed "" i bs := by
  induction bs generalizing i with
  | nil => rfl
  | cons b bs ih =>
    rw [indexed, indexed, List.filterMap_append, ih, List.filterMap_map, ← List.filterMap_eq_map]
    refine congrArg (· ++ indexed "" (i + 1) bs) (List.filterMap_congr fun e _ => ?_)
    have hpart := partEntry_part hk (toString i ++ "." ++ e.1) e.2
    rw [if_neg (index_ne_count i e.1)] at hpart
    simpa only [Function.comp_apply, String.append_assoc, String.empty_append] using hpart

theorem count_key (k : String) : k ++ ".#" = k ++ "." ++ "#" := by
  rw [String.append_assoc]
  rfl

theorem counted_keys_nodup (k : String) {count : List (String × Json)} (hlen : count.length ≤ 1)
    (hcount : ∀ e ∈ count, e.1 = k ++ ".#") {bs : List (List (String × Json))}
    (hbs : ∀ b ∈ bs, (b.map Prod.fst).Nodup) :
    ((count ++ indexed (k ++ ".") 0 bs).map Prod.fst).Nodup := by
  rw [List.map_append, List.nodup_append]
  refine ⟨?_, indexed_keys_nodup (k ++ ".") 0 bs hbs, ?_⟩
  · match count, hlen with
    | [], _ => simp
    | [e], _ => simp
  · intro x hx y hy heq
    obtain ⟨e, he, rfl⟩ := List.mem_map.mp hx
    obtain ⟨j, -, rest, rfl⟩ := mem_indexed_keys hy
    rw [hcount e he] at heq
    refine index_ne_count j rest (Eq.symm ?_)
    simpa only [count_key, String.append_assoc, String.append_right_inj] using heq

/-- What the parse functions see of a converted list. -/
theorem parsePrefix_converted (random : Nat → Nat) (attrs : Attrs)
    (hkeys : ∀ key ∈ attrs.keys, '.' ∉ key.toList) (k : String) (items : List Json)
    (hk : attrs.lookup k = some (.arr items)) (hitems : ∀ v ∈ items, ∃ b, BlockOf v b) (n : Nat)
    (r : Attrs × Nat) (h : convertToV3Structure random (.obj attrs.entries) "" n = .ok r) :
    ∃ bs, List.Forall₂ BlockOf items bs ∧ parsePrefix r.1 k '.' = indexed "" 0 bs := by
  have hno : '.' ∉ k.toList := hkeys k ((OrderedDict.mem_keys_iff attrs k).mpr ⟨_, hk⟩)
  obtain ⟨r1, r2, hfresh, hround, hparts⟩ := parts_of_converted random attrs hkeys k _ hk n r h
  obtain ⟨bs, n', hbs, hconv⟩ := convertItems_blocks random k items 0 "" r1.2 hitems
  refine ⟨bs, hbs, ?_⟩
  rw [convertField, hconv] at hround
  obtain rfl := Except.ok.inj hround
  have hself : ∀ e ∈ indexed (k ++ ".") 0 bs, partOf k e.1 = true := by
    intro e he
    obtain ⟨j, -, rest, hrest⟩ := mem_indexed_keys (List.mem_map_of_mem he)
    rw [hrest]
    simpa only [String.append_assoc] using partOf_self k hno (toString j ++ "." ++ rest)
  have hcountPart : partOf k (k ++ ".#") = true := count_key k ▸ partOf_self k hno "#"
  -- The count of an empty list is left out.
  obtain ⟨count, hcount, hread⟩ : ∃ count : List (String × Json),
      (∀ e ∈ count, e.1 = k ++ ".#") ∧ count.length ≤ 1 ∧
        r.1.filterKeys (partOf k) = (∅ : Attrs).setAll (count ++ indexed (k ++ ".") 0 bs) := by
    rw [hparts]
    simp only [String.empty_append] at hfresh ⊢
    rw [OrderedDict.filterKeys_setAll_of _ _ _ hself]
    split
    · exact ⟨[], by simp, by simp, by rw [hfresh]; rfl⟩
    · refine ⟨[(k ++ ".#", .num items.length)], by simp, by simp, ?_⟩
      rw [OrderedDict.filterKeys_setItem_of _ _ _ _ hcountPart, hfresh]
      rfl
  have hnodup := counted_keys_nodup k hread.1 hcount (blocks_nodup hbs)
  rw [← parsePrefix_filterKeys, hread.2, parsePrefix_eq, OrderedDict.empty_setAll_entries _ hnodup,
    List.filterMap_append, filterMap_indexed k hno 0 bs]
  refine (congrArg (· ++ indexed "" 0 bs) ?_).trans (List.nil_append _)
  refine List.filterMap_eq_nil_iff.mpr fun e he => ?_
  obtain ⟨y, v⟩ := e
  obtain rfl : y = k ++ ".#" := hcount _ he
  rw [count_key, partEntry_part hno, if_pos rfl]

/-- One round of the loop in parse_attr_list. -/
def groupEntry (attrs : OrderedDict String Attrs) (e : String × Json) :
    Except PyError (OrderedDict String Attrs) :=
  match splitKey '.' e.1 with
  | none => .error (.valueError "not enough values to unpack (expected 2, got 1)" [])
  | some (idx, key) => .ok (attrs.setItem idx (((attrs.lookup idx).getD ∅).setItem key e.2))

theorem parseAttrList_eq (source : Attrs) (k : String) : parseAttrList source k '.' =
    ((parsePrefix source k '.').foldlM groupEntry ∅).map OrderedDict.values := by
  change (parsePrefix source k '.').foldlM groupEntry ∅ >>= (fun attrs => .ok attrs.values) = _
  cases (parsePrefix source k '.').foldlM groupEntry ∅ <;> rfl

theorem groupEntry_index (d : OrderedDict String Attrs) (i : Nat) (key : String) (v : Json) :
    groupEntry d (toString i ++ "." ++ key, v) =
      .ok (d.setItem (toString i) (((d.lookup (toString i)).getD ∅).setItem key v)) := by
  rw [groupEntry, splitKey_index]

/-- The entries of an item that has come up already go on filling its map. -/
theorem foldlM_block (d : OrderedDict String Attrs) (i : Nat) (cur : Attrs)
    (b : List (String × Json)) :
    (b.map fun e => (toString i ++ "." ++ e.1, e.2)).foldlM groupEntry (d.setItem (toString i) cur) =
      .ok (d.setItem (toString i) (cur.setAll b)) := by
  induction b generalizing cur with
  | nil => rfl
  | cons e b ih =>
    have hstep : groupEntry (d.setItem (toString i) cur) (toString i ++ "." ++ e.1, e.2) =
        .ok (d.setItem (toString i) (cur.setItem e.1 e.2)) := by
      rw [groupEntry_index, OrderedDict.lookup_setItem, if_pos rfl, OrderedDict.setItem_setItem]
      rfl
    rw [List.map_cons, List.foldlM_cons, hstep]
    exact ih _

/-- Each item of the list gets a map of its own, behind those of the items before it. -/
theorem foldlM_indexed (d : OrderedDict String Attrs) (i : Nat) (bs : List (List (String × Json)))
    (hnew : ∀ j, i ≤ j → toString j ∉ d.keys) (hne : ∀ b ∈ bs, b ≠ []) :
    ∃ d', (indexed "" i bs).foldlM groupEntry d = .ok d' ∧
      d'.values = d.values ++ bs.map fun b => (∅ : Attrs).setAll b := by
  induction bs generalizing d i with
  | nil => exact ⟨d, rfl, by simp⟩
  | cons b bs ih =>
    obtain ⟨e, b, rfl⟩ := List.exists_cons_of_ne_nil (hne b (by simp))
    have hfirst : groupEntry d (toString i ++ "." ++ e.1, e.2) =
        .ok (d.setItem (toString i) ((∅ : Attrs).setItem e.1 e.2)) := by
      rw [groupEntry_index, (OrderedDict.lookup_eq_none_iff d _).mpr (hnew i (Nat.le_refl i))]
      rfl
    have hblock : ((e :: b).map fun e => (toString i ++ "." ++ e.1, e.2)).foldlM groupEntry d =
        .ok (d.setItem (toString i) ((∅ : Attrs).setAll (e :: b))) := by
      rw [List.map_cons, List.foldlM_cons, hfirst]
      exact foldlM_block d i _ b
    have hnew' : ∀ j, i + 1 ≤ j →
        toString j ∉ (d.setItem (toString i) ((∅ : Attrs).setAll (e :: b))).keys := by
      intro j hj hmem
      rw [OrderedDict.keys_setItem, mem_addKey] at hmem
      cases hmem with
      | inl hmem => exact hnew j (by omega) hmem
      | inr heq =>
        have hij := toString_nat_injective heq
        omega
    obtain ⟨d', hd', hvalues⟩ := ih (d.setItem (toString i) ((∅ : Attrs).setAll (e :: b))) (i + 1)
      hnew' fun x hx => hne x (List.mem_cons_of_mem _ hx)
    refine ⟨d', ?_, ?_⟩
    · rw [indexed, List.foldlM_append]
      simp only [String.empty_append]
      rw [hblock]
      exact hd'
    · rw [hvalues, OrderedDict.values, OrderedDict.values,
        OrderedDict.entries_setItem_of_not_mem d _ _ (hnew i (Nat.le_refl i))]
      simp

end Reading

section Lists
variable (random : Nat → Nat) (attrs : Attrs) (k : String)

/-- A list that is to come back from the flat form. -/
inductive ListValue where
  | texts (items : List String)
  | maps (items : List FlatMap)

def ListValue.value : ListValue → Json
  | .texts items => .arr (items.map .str)
  | .maps items => .arr (items.map fun m => .obj m.map.entries)

/-- The parse function for lists of its kind gives the list, in order. -/
def ListValue.ReadBack (source : Attrs) (k : String) : ListValue → Prop
  | .texts items => parseList source k '.' = items.map .str
  | .maps items => parseAttrList source k '.' = .ok (items.map FlatMap.map)

theorem blocks_of_texts {items : List String} {bs : List (List (String × Json))}
    (h : List.Forall₂ BlockOf (items.map .str) bs) : bs.flatten.map Prod.snd = items.map .str := by
  induction items generalizing bs with
  | nil =>
    cases h
    rfl
  | cons s items ih =>
    cases h with
    | cons hb hbs =>
      rw [List.flatten_cons, List.map_append, ih hbs, List.map_cons]
      cases hb with
      | inl hb =>
        obtain ⟨t, x, heq, rfl⟩ := hb
        rw [heq]
        rfl
      | inr hb =>
        obtain ⟨m, heq, -⟩ := hb
        cases heq

theorem blocks_of_maps {items : List FlatMap} {bs : List (List (String × Json))}
    (h : List.Forall₂ BlockOf (items.map fun m => .obj m.map.entries) bs) :
    bs = items.map fun m => m.map.entries := by
  induction items generalizing bs with
  | nil =>
    cases h
    rfl
  | cons m items ih =>
    cases h with
    | cons hb hbs =>
      rw [ih hbs, List.map_cons]
      cases hb with
      | inl hb =>
        obtain ⟨t, x, heq, -⟩ := hb
        cases heq
      | inr hb =>
        obtain ⟨m', heq, rfl⟩ := hb
        rw [Json.obj.inj heq]

/-- Whatever the converted attributes are, the parse functions give the list. -/
theorem readBack_of_converted (hkeys : ∀ key ∈ attrs.keys, '.' ∉ key.toList) (l : ListValue)
    (hl : attrs.lookup k = some l.value) (n : Nat) (r : Attrs × Nat)
    (h : convertToV3Structure random (.obj attrs.entries) "" n = .ok r) : l.ReadBack r.1 k := by
  cases l with
  | texts items =>
    obtain ⟨bs, hbs, hread⟩ := parsePrefix_converted random attrs hkeys k _ hl (by
      intro v hv
      obtain ⟨s, -, rfl⟩ := List.mem_map.mp hv
      exact ⟨[("", .str s)], .inl ⟨s, "", rfl, rfl⟩⟩) n r h
    rw [ListValue.ReadBack, parseList, hread, indexed_values, blocks_of_texts hbs]
  | maps items =>
    obtain ⟨bs, hbs, hread⟩ := parsePrefix_converted random attrs hkeys k _ hl (by
      intro v hv
      obtain ⟨m, -, rfl⟩ := List.mem_map.mp hv
      exact ⟨m.map.entries, .inr ⟨m, rfl, rfl⟩⟩) n r h
    obtain rfl := blocks_of_maps hbs
    obtain ⟨d, hd, hvalues⟩ := foldlM_indexed ∅ 0 (items.map fun m => m.map.entries) (by simp) (by
      intro b hb
      obtain ⟨m, -, rfl⟩ := List.mem_map.mp hb
      exact fun he => m.nonempty (by rw [OrderedDict.keys, he]; rfl))
    rw [ListValue.ReadBack, parseAttrList_eq, hread, hd]
    change Except.ok d.values = _
    rw [hvalues, List.map_map]
    refine congrArg Except.ok ((List.nil_append _).trans (List.map_congr_left fun m _ => ?_))
    exact OrderedDict.ext_entries (OrderedDict.empty_setAll_entries _ m.map.nodup)

/-- The conversion gives a mapping, and the list is read back from it. -/
def ListSurvives (l : ListValue) (n : Nat) : Prop :=
  ∃ r, convertToV3Structure random (.obj attrs.entries) "" n = .ok r ∧ l.ReadBack r.1 k

/-- What keeps a list from coming back is an item of any list that is neither a text nor an
object. -/
theorem listSurvives_iff (hkeys : ∀ key ∈ attrs.keys, '.' ∉ key.toList) (l : ListValue)
    (hl : attrs.lookup k = some l.value) (n : Nat) :
    ListSurvives random attrs k l n ↔ ∀ v, ListItem attrs.entries v → v.isTextOrObject = true := by
  constructor
  · intro h
    obtain ⟨r, hr, -⟩ := h
    exact (converts_iff random attrs.entries n).mp ⟨r, hr⟩
  · intro h
    obtain ⟨r, hr⟩ := (converts_iff random attrs.entries n).mpr h
    exact ⟨r, hr, readBack_of_converted random attrs k hkeys l hl n r hr⟩

end Lists

/-- The names of the security groups, beside the ports of a rule. -/
def groupAttrs : Attrs :=
  (∅ : Attrs).setAll [("security_groups", .arr [.str "k8s"]), ("ports", .arr [.num 22])]

theorem groupAttrs_listSurvives_iff :
    ListSurvives (fun _ => 7) groupAttrs "security_groups" (.texts ["k8s"]) 0 ↔
      ∀ v, ListItem groupAttrs.entries v → v.isTextOrObject = true :=
  listSurvives_iff (fun _ => 7) groupAttrs "security_groups" (by decide) (.texts ["k8s"]) rfl 0

theorem groupAttrs_list_lost : ¬ ∀ (attrs : Attrs) (k : String) (l : ListValue),
    (∀ key ∈ attrs.keys, '.' ∉ key.toList) → attrs.lookup k = some l.value →
      ListSurvives (fun _ => 7) attrs k l 0 := by
  intro h
  obtain ⟨r, hr, -⟩ := h groupAttrs "security_groups" (.texts ["k8s"]) (by decide) rfl
  cases hr

end Kubespray.Terraform

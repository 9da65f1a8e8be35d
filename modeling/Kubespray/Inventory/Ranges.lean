import Kubespray.Inventory.Addresses

/-! The arguments that range2ips takes for ranges of addresses: which it expands to the
addresses of the family that the ends belong to. -/
namespace Kubespray.Inventory

/-- Whether range2ips takes the argument for a range. -/
def RangeLike (t : CharTables) (host : String) : Prop :=
  '-' ∈ host.toList ∧ host.toList.head? ≠ some '-' ∧ ¬ (host.toList.head?.any t.isalpha)

/-- The argument is `a-b`, up to blanks around it, with the texts of two addresses. -/
def IsRange (t : CharTables) (host : String) (a b : IPAddress) : Prop :=
  RangeLike t host ∧ ∃ start stop : String, strip t host.toList = start.toList ++ '-' :: stop.toList ∧
    IPAddress.read start = some a ∧ IPAddress.read stop = some b

def SameFamily : IPAddress → IPAddress → Prop
  | .v4 _, .v4 _ => True
  | .v6 _, .v6 _ => True
  | _, _ => False

/-- The text of the address with the integer, in the family of `a`. -/
def textLike (a : IPAddress) (n : Nat) : String :=
  match a with
  | .v4 _ => (IPv4.mk (Fin.ofNat (2 ^ 32) n)).exploded
  | .v6 _ => (IPv6.mk (Fin.ofNat (2 ^ 128) n)).exploded

/-- The texts of the addresses from `a` on, in the family of `a`, up to the integer. -/
def addressesFrom (a : IPAddress) (stop : Nat) : List String :=
  (List.range' a.toInt (stop + 1 - a.toInt)).map (textLike a)

section Expansion
variable (t : CharTables)

theorem toInt_lt (a : IPAddress) : a.toInt < 2 ^ 128 := by
  cases a with
  | v4 a => exact Nat.lt_trans a.val.isLt (by decide)
  | v6 a => exact a.val.isLt

/-- The text of the address that the integer becomes again. -/
def integerText (n : Nat) : String :=
  if n < 2 ^ 32 then (IPv4.mk (Fin.ofNat (2 ^ 32) n)).exploded
  else (IPv6.mk (Fin.ofNat (2 ^ 128) n)).exploded

theorem ofInt_exploded {n : Nat} (hn : n < 2 ^ 128) :
    (IPAddress.ofInt n).map (·.exploded) = some (integerText n) := by
  rw [IPAddress.ofInt, integerText]
  by_cases h : n < 2 ^ 32
  · have hval : (⟨n, h⟩ : Fin (2 ^ 32)) = Fin.ofNat (2 ^ 32) n :=
      Fin.ext (Nat.mod_eq_of_lt h).symm
    rw [dif_pos h, if_pos h, hval]
    rfl
  · have hval : (⟨n, hn⟩ : Fin (2 ^ 128)) = Fin.ofNat (2 ^ 128) n :=
      Fin.ext (Nat.mod_eq_of_lt hn).symm
    rw [dif_neg h, dif_pos hn, if_neg h, hval]
    rfl

theorem ips_eq {start stop : String} {a b : IPAddress} (ha : IPAddress.read start = some a)
    (hb : IPAddress.read stop = some b) :
    ips start stop = some ((List.range' a.toInt (b.toInt + 1 - a.toInt)).map integerText) := by
  have hmap : ∀ l : List Nat, (∀ n ∈ l, n < 2 ^ 128) →
      (l.mapM fun n => (IPAddress.ofInt n).map (·.exploded)) = some (l.map integerText) := by
    intro l hl
    induction l with
    | nil => rfl
    | cons n l ih =>
      rw [List.mapM_cons, ofInt_exploded (hl n (by simp)),
        ih fun m hm => hl m (List.mem_cons_of_mem n hm)]
      rfl
  rw [ips, ha, hb]
  apply hmap
  intro n hn
  have hbound := toInt_lt b
  rw [List.mem_range'_1] at hn
  omega

theorem ips_isSome {start stop : String} {l : List String} (h : ips start stop = some l) :
    ∃ a b, IPAddress.read start = some a ∧ IPAddress.read stop = some b := by
  rw [ips] at h
  obtain ⟨a, ha, h⟩ := Option.bind_eq_some_iff.mp h
  obtain ⟨b, hb, -⟩ := Option.bind_eq_some_iff.mp h
  exact ⟨a, b, ha, hb⟩

theorem dash_not_mem_address {text : String} {a : IPAddress} (h : IPAddress.read text = some a) :
    '-' ∉ text.toList := by
  intro hm
  have hbounds := addressChar_toNat (IPAddress.read_chars h '-' hm)
  exact absurd hbounds.1 (by decide)

theorem rangeOf_of_like {host : String} (h : RangeLike t host) : rangeOf t host =
    match splitChar '-' (strip t host.toList) with
    | [start, stop] =>
      match ips (String.ofList start) (String.ofList stop) with
      | some addresses => .ok addresses
      | none => .error (.exception ["Range of ip_addresses isn't valid"])
    | _ => .error (.valueError "too many values to unpack (expected 2)") :=
  if_pos h

theorem rangeOf_of_not {host : String} (h : ¬ RangeLike t host) : rangeOf t host = .ok [host] :=
  if_neg h

theorem rangeOf_of_isRange {host : String} {a b : IPAddress} (h : IsRange t host a b) :
    rangeOf t host =
      .ok ((List.range' a.toInt (b.toInt + 1 - a.toInt)).map integerText) := by
  obtain ⟨hlike, start, stop, hstrip, ha, hb⟩ := h
  have hsplit : splitChar '-' (strip t host.toList) = [start.toList, stop.toList] := by
    rw [hstrip, splitChar_append _ _ _ (dash_not_mem_address ha),
      splitChar_of_not_mem _ _ (dash_not_mem_address hb)]
  rw [rangeOf_of_like t hlike, hsplit]
  simp only [String.ofList_toList, ips_eq ha hb]

/-- What looks like a range and is none raises. -/
theorem rangeOf_of_none {host : String} (hlike : RangeLike t host)
    (h : ∀ a b, ¬ IsRange t host a b) : ∃ e, rangeOf t host = .error e := by
  rw [rangeOf_of_like t hlike]
  split
  case h_2 => exact ⟨_, rfl⟩
  case h_1 start stop hsplit =>
    cases hips : ips (String.ofList start) (String.ofList stop) with
    | none => exact ⟨_, rfl⟩
    | some l =>
      obtain ⟨a, b, ha, hb⟩ := ips_isSome hips
      refine absurd ⟨hlike, String.ofList start, String.ofList stop, ?_, ha, hb⟩ (h a b)
      rw [String.toList_ofList, String.toList_ofList]
      exact eq_of_splitChar_pair hsplit

theorem strip_eq {cs : List Char} (h : ∀ c ∈ cs, t.isspace c = false) : strip t cs = cs := by
  have hdrop : ∀ l : List Char, (∀ c ∈ l, t.isspace c = false) → l.dropWhile t.isspace = l := by
    intro l hl
    cases l with
    | nil => rfl
    | cons c l =>
      rw [List.dropWhile_cons_of_neg]
      simp [hl c (by simp)]
  rw [strip, hdrop cs h, hdrop cs.reverse (by simpa using h), List.reverse_reverse]

theorem read_ne_empty {text : String} {a : IPAddress} (h : IPAddress.read text = some a) :
    text.toList ≠ [] := by
  intro hnil
  rw [IPAddress.read, hnil] at h
  exact absurd h (by simp [IPv4.read, IPv6.read, splitChar])

/-- Two texts of addresses with the dash between them are a range. -/
theorem isRange_of_texts {start stop : String} {a b : IPAddress} (ha : IPAddress.read start = some a)
    (hb : IPAddress.read stop = some b) (hletter : ¬ start.toList.head?.any t.isalpha) :
    IsRange t (start ++ "-" ++ stop) a b := by
  have htext : (start ++ "-" ++ stop).toList = start.toList ++ '-' :: stop.toList := by simp
  have hspace : ∀ c ∈ (start ++ "-" ++ stop).toList, t.isspace c = false := by
    have hchar : ∀ c : Char, 45 ≤ c.toNat → c.toNat ≤ 102 → t.isspace c = false := by
      intro c h1 h2
      rw [t.isspace_ascii c (by omega), decide_eq_false_iff_not]
      omega
    intro c hc
    rw [htext, List.mem_append, List.mem_cons] at hc
    rcases hc with hc | rfl | hc
    · have hbounds := addressChar_toNat (IPAddress.read_chars ha c hc)
      exact hchar c (by omega) hbounds.2
    · exact hchar '-' (by decide) (by decide)
    · have hbounds := addressChar_toNat (IPAddress.read_chars hb c hc)
      exact hchar c (by omega) hbounds.2
  obtain ⟨x, xs, hx⟩ := List.exists_cons_of_ne_nil (read_ne_empty ha)
  have hdash : x ≠ '-' := fun he => dash_not_mem_address ha (by simp [hx, he])
  refine ⟨⟨by simp, ?_, ?_⟩, start, stop, (strip_eq t hspace).trans htext, ha, hb⟩
  · simpa [htext, hx] using hdash
  · rw [htext]
    rw [hx] at hletter ⊢
    exact hletter

theorem range2ips_append (hosts hosts' : List String) :
    range2ips t (hosts ++ hosts') = (do
      let l ← range2ips t hosts
      let l' ← range2ips t hosts'
      .ok (l ++ l')) := by
  rw [range2ips, range2ips, range2ips, List.mapM_append]
  cases hosts.mapM (rangeOf t) with
  | error e => rfl
  | ok ls =>
    cases hosts'.mapM (rangeOf t) with
    | error e => rfl
    | ok ls' => exact congrArg Except.ok List.flatten_append

theorem range2ips_cons (host : String) (hosts : List String) :
    range2ips t (host :: hosts) = (do
      let l ← rangeOf t host
      let l' ← range2ips t hosts
      .ok (l ++ l')) := by
  rw [range2ips, range2ips, List.mapM_cons]
  cases rangeOf t host with
  | error e => rfl
  | ok l => cases hosts.mapM (rangeOf t) <;> rfl

/-- One argument that raises is enough. -/
theorem range2ips_error {hosts : List String} {host : String} (hm : host ∈ hosts)
    (h : ∃ e, rangeOf t host = .error e) : ∃ e, range2ips t hosts = .error e := by
  obtain ⟨e, he⟩ := h
  obtain ⟨pre, post, rfl⟩ := List.append_of_mem hm
  rw [range2ips_append, range2ips_cons, he]
  cases range2ips t pre with
  | error e' => exact ⟨e', rfl⟩
  | ok l => exact ⟨e, rfl⟩

theorem range2ips_ok {hosts : List String} (h : ∀ host ∈ hosts, ∃ l, rangeOf t host = .ok l) :
    ∃ l, range2ips t hosts = .ok l := by
  induction hosts with
  | nil => exact ⟨[], rfl⟩
  | cons host hosts ih =>
    obtain ⟨l, hl⟩ := h host (by simp)
    obtain ⟨l', hl'⟩ := ih fun x hx => h x (List.mem_cons_of_mem host hx)
    exact ⟨l ++ l', by rw [range2ips_cons, hl, hl']; rfl⟩

/-- What an argument becomes stands between what those around it become. -/
theorem range2ips_split {pre post l : List String} {host : String}
    (h : range2ips t (pre ++ host :: post) = .ok l) : ∃ l₁ part l₂, range2ips t pre = .ok l₁ ∧
      rangeOf t host = .ok part ∧ range2ips t post = .ok l₂ ∧ l = l₁ ++ part ++ l₂ := by
  rw [range2ips_append, range2ips_cons] at h
  obtain ⟨l₁, hpre, h⟩ := Runs.bind_eq_ok h
  obtain ⟨l', hcons, h⟩ := Runs.bind_eq_ok h
  obtain ⟨part, hpart, hcons⟩ := Runs.bind_eq_ok hcons
  obtain ⟨l₂, hpost, hcons⟩ := Runs.bind_eq_ok hcons
  obtain rfl := Except.ok.inj hcons
  obtain rfl := Except.ok.inj h
  exact ⟨l₁, part, l₂, hpre, hpart, hpost, (List.append_assoc l₁ part l₂).symm⟩

/-- The two ends as the user meant them: in one family and in order. -/
def Ordered (a b : IPAddress) : Prop := SameFamily a b ∧ a.toInt ≤ b.toInt

/-- Every range of two addresses becomes the addresses between them, in its place, with the
other arguments as they are; the two ends in different families raise. -/
structure ExpandsRanges (hosts : List String) : Prop where
  mixed : ∀ host ∈ hosts, ∀ a b, IsRange t host a b → ¬ SameFamily a b →
    ∃ e, range2ips t hosts = .error e
  inPlace : ∀ pre host post l, hosts = pre ++ host :: post → range2ips t hosts = .ok l →
    ∃ l₁ part l₂, range2ips t pre = .ok l₁ ∧ range2ips t post = .ok l₂ ∧ l = l₁ ++ part ++ l₂ ∧
      (¬ RangeLike t host → part = [host]) ∧
      ∀ a b, IsRange t host a b → Ordered a b → part = addressesFrom a b.toInt
  completes : (∀ host ∈ hosts, RangeLike t host → ∃ a b, IsRange t host a b ∧ Ordered a b) →
    ∃ l, range2ips t hosts = .ok l

/-- The integers of an IPv6 range do not look like those of IPv4 addresses. -/
def AboveV4 : IPAddress → Prop
  | .v4 _ => True
  | .v6 a => 2 ^ 32 ≤ a.val.val

theorem colon_mem_v6 (a : IPv6) : ':' ∈ a.exploded.toList := by
  simp [IPv6.exploded, List.range_succ, String.intercalate_cons_cons]

theorem integerText_eq {a b : IPAddress} (hab : Ordered a b) (ha : AboveV4 a) :
    (List.range' a.toInt (b.toInt + 1 - a.toInt)).map integerText = addressesFrom a b.toInt := by
  rw [addressesFrom]
  apply List.map_congr_left
  intro n hn
  rw [List.mem_range'_1] at hn
  obtain ⟨hsame, hle⟩ := hab
  cases a with
  | v4 a =>
    cases b with
    | v4 b =>
      have hb : (IPAddress.v4 b).toInt < 2 ^ 32 := b.val.isLt
      exact if_pos (by omega)
    | v6 b => exact hsame.elim
  | v6 a =>
    have hge : 2 ^ 32 ≤ (IPAddress.v6 a).toInt := ha
    exact if_neg (by omega)

/-- Below 2^32 the first address of an IPv6 range becomes an IPv4 address. -/
theorem integerText_ne {a b : IPAddress} (hab : Ordered a b) (ha : ¬ AboveV4 a) :
    (List.range' a.toInt (b.toInt + 1 - a.toInt)).map integerText ≠ addressesFrom a b.toInt := by
  intro heq
  obtain ⟨-, hle⟩ := hab
  cases a with
  | v4 a => exact ha trivial
  | v6 a =>
    have hlt : (IPAddress.v6 a).toInt < 2 ^ 32 := Nat.lt_of_not_le ha
    obtain ⟨k, hk⟩ : ∃ k, b.toInt + 1 - (IPAddress.v6 a).toInt = k + 1 :=
      ⟨b.toInt - (IPAddress.v6 a).toInt, by omega⟩
    rw [addressesFrom, hk, List.range'_succ, List.map_cons, List.map_cons] at heq
    have hfirst := (List.cons.inj heq).1
    rw [integerText, if_pos hlt] at hfirst
    have hcolon : ':' ∈ (textLike (.v6 a) (IPAddress.v6 a).toInt).toList := colon_mem_v6 _
    rw [← hfirst] at hcolon
    exact AddressArg.not_mem_exploded rfl (by decide) hcolon

/-- The argument is an ordinary one or a range of two addresses. -/
def Readable (host : String) : Prop := RangeLike t host → ∃ a b, IsRange t host a b

theorem rangeOf_ok_of_readable {host : String} (h : Readable t host) :
    ∃ l, rangeOf t host = .ok l := by
  by_cases hlike : RangeLike t host
  · obtain ⟨a, b, hab⟩ := h hlike
    exact ⟨_, rangeOf_of_isRange t hab⟩
  · exact ⟨_, rangeOf_of_not t hlike⟩

theorem range2ips_completes {hosts : List String}
    (h : ∀ host ∈ hosts, RangeLike t host → ∃ a b, IsRange t host a b ∧ Ordered a b) :
    ∃ l, range2ips t hosts = .ok l :=
  range2ips_ok t fun host hm => rangeOf_ok_of_readable t fun hlike =>
    (h host hm hlike).imp fun _ hab => hab.imp fun _ hab => hab.1

/-- A call that raises expands nothing. -/
theorem expandsRanges_of_error {hosts : List String} (h : ∃ e, range2ips t hosts = .error e) :
    ExpandsRanges t hosts where
  mixed _ _ _ _ _ _ := h
  inPlace _ _ _ l _ hl := by
    obtain ⟨e, he⟩ := h
    rw [he] at hl
    cases hl
  completes := range2ips_completes t

theorem expandsRanges_of_good {hosts : List String} (h : ∀ host ∈ hosts, ∀ a b,
    IsRange t host a b → SameFamily a b ∧ (a.toInt ≤ b.toInt → AboveV4 a)) :
    ExpandsRanges t hosts where
  mixed host hm a b hab hno := absurd (h host hm a b hab).1 hno
  inPlace pre host post l hcut hl := by
    subst hcut
    obtain ⟨l₁, part, l₂, hpre, hpart, hpost, hcut⟩ := range2ips_split t hl
    refine ⟨l₁, part, l₂, hpre, hpost, hcut, fun hno => ?_, fun a b hab hord => ?_⟩
    · rw [rangeOf_of_not t hno] at hpart
      exact (Except.ok.inj hpart).symm
    · rw [rangeOf_of_isRange t hab] at hpart
      rw [← Except.ok.inj hpart]
      exact integerText_eq hord ((h host (by simp) a b hab).2 hord.2)
  completes := range2ips_completes t

/-- What a range becomes in a call that returns is what the user meant only above the IPv4
integers. -/
theorem above_of_expandsRanges {hosts l : List String} (h : ExpandsRanges t hosts)
    (hl : range2ips t hosts = .ok l) {host : String} (hm : host ∈ hosts) {a b : IPAddress}
    (hab : IsRange t host a b) (hord : Ordered a b) : AboveV4 a := by
  obtain ⟨pre, post, rfl⟩ := List.append_of_mem hm
  obtain ⟨l₁, part, l₂, hpre, hpost, hcut, -, hpart⟩ := h.inPlace pre host post l rfl hl
  obtain ⟨k₁, part', k₂, hpre', hpart', hpost', hcut'⟩ := range2ips_split t hl
  rw [hpre] at hpre'
  rw [hpost] at hpost'
  obtain rfl := Except.ok.inj hpre'
  obtain rfl := Except.ok.inj hpost'
  have heq : part' = part :=
    List.append_cancel_left (List.append_cancel_right (hcut'.symm.trans hcut))
  rw [rangeOf_of_isRange t hab] at hpart'
  by_contra hbelow
  apply integerText_ne hord hbelow
  rw [Except.ok.inj hpart', heq]
  exact hpart a b hab hord

/-- Ranges are expanded exactly where the call raises on a malformed one, or no range mixes the
families or starts where the integers look like IPv4 addresses. -/
theorem expandsRanges_iff (hosts : List String) : ExpandsRanges t hosts ↔
    (∃ host ∈ hosts, RangeLike t host ∧ ∀ a b, ¬ IsRange t host a b) ∨
      ∀ host ∈ hosts, ∀ a b, IsRange t host a b →
        SameFamily a b ∧ (a.toInt ≤ b.toInt → AboveV4 a) := by
  constructor
  · intro h
    by_cases hbad : ∃ host ∈ hosts, RangeLike t host ∧ ∀ a b, ¬ IsRange t host a b
    · exact .inl hbad
    right
    have hread : ∀ host ∈ hosts, Readable t host := by
      intro host hm hlike
      by_contra hno
      exact hbad ⟨host, hm, hlike, fun a b hab => hno ⟨a, b, hab⟩⟩
    obtain ⟨l, hl⟩ := range2ips_ok t fun host hm => rangeOf_ok_of_readable t (hread host hm)
    intro host hm a b hab
    have hsame : SameFamily a b := by
      by_contra hno
      obtain ⟨e, he⟩ := h.mixed host hm a b hab hno
      rw [he] at hl
      cases hl
    exact ⟨hsame, fun hle => above_of_expandsRanges t h hl hm hab ⟨hsame, hle⟩⟩
  · intro h
    cases h with
    | inl hbad =>
      obtain ⟨host, hm, hlike, hnone⟩ := hbad
      exact expandsRanges_of_error t (range2ips_error t hm (rangeOf_of_none t hlike hnone))
    | inr hgood => exact expandsRanges_of_good t hgood

end Expansion

/-- The range of `::1` and `::2` becomes two IPv4 addresses. -/
theorem loopback_range_not_expanded : ¬ ExpandsRanges .ascii ["::1-::2"] := by
  intro h
  have hstart : IPAddress.read "::1" = some (.v6 ⟨1⟩) := by decide
  have hstop : IPAddress.read "::2" = some (.v6 ⟨2⟩) := by decide
  have hrange : IsRange .ascii "::1-::2" (.v6 ⟨1⟩) (.v6 ⟨2⟩) :=
    isRange_of_texts .ascii hstart hstop (by decide)
  have hresult : range2ips .ascii ["::1-::2"] = .ok ["0.0.0.1", "0.0.0.2"] := by decide
  obtain ⟨l₁, part, l₂, hpre, hpost, hcut, -, hpart⟩ := h.inPlace [] _ [] _ rfl hresult
  obtain rfl := Except.ok.inj hpre
  obtain rfl := Except.ok.inj hpost
  rw [hpart _ _ hrange ⟨trivial, by decide⟩] at hcut
  exact absurd hcut (by decide)

example : range2ips .ascii ["255.255.255.255-::1:0:0"] =
    .ok ["255.255.255.255", "0000:0000:0000:0000:0000:0001:0000:0000"] := by decide

end Kubespray.Inventory

import Kubespray.Inventory.Naming
import Kubespray.Inventory.Run

/-! The documented forms of arguments, and what build_hostnames makes of a list of them: a fold
over the hosts and the next number. -/
namespace Kubespray.Inventory

/-- An argument `ip`, `ip,access_ip`, `name,ip` or `name,ip,access_ip`. A name starts with a
letter, an address that stands first with a digit. -/
structure HostAdd (t : CharTables) where
  name : Option String
  ip : String
  accessIp : Option String
  noComma : ∀ f ∈ name.toList ++ ip :: accessIp.toList, ',' ∉ f.toList
  named : ∀ n ∈ name, ∃ c cs, n.toList = c :: cs ∧ t.isalpha c = true ∧ t.isdigit c = false
  address : name = none → ∃ c cs, ip.toList = c :: cs ∧ t.isdigit c = true
  noRange : name = none → ∀ f ∈ ip :: accessIp.toList, '-' ∉ f.toList

/-- An argument of a documented form. -/
inductive HostForm (t : CharTables) where
  | add (h : HostAdd t)
  | delete (target : String)

namespace HostAdd
variable {t : CharTables}

def fields (h : HostAdd t) : List String := h.name.toList ++ h.ip :: h.accessIp.toList

def text (h : HostAdd t) : String :=
  h.name.elim "" (· ++ ",") ++ h.ip ++ h.accessIp.elim "" ("," ++ ·)

def access (h : HostAdd t) : String := h.accessIp.getD h.ip

def opts (h : HostAdd t) : Value := hostOpts h.ip h.access

/-- The name the host is given where the next number is `next`. -/
def hostname (s : Settings) (next : Nat) (h : HostAdd t) : String := h.name.getD (hostName s next)

end HostAdd

def HostForm.text {t : CharTables} : HostForm t → String
  | .add h => h.text
  | .delete target => "-" ++ target

/-- Whether exists_ip finds the ip in the options. -/
def hasIp (ip : String) (v : Value) : Bool := (getIpFromOpts v).toOption.any (Value.isStr ip)

def knowsIp (d : HostMap) (ip : String) : Bool := d.entries.any fun e => hasIp ip e.2

/-- get_ip_from_opts finds an ip for every host. -/
def IpsReadable (d : HostMap) : Prop := ∀ e ∈ d.entries, ∃ w, getIpFromOpts e.2 = .ok w

section Change
variable {t : CharTables} (s : Settings) (p : HostMap × Nat)

/-- What makes an added host be skipped. -/
def HostAdd.Skipped (d : HostMap) (h : HostAdd t) : Prop :=
  h.text ∈ d.keys ∨ knowsIp d h.ip = true

instance (d : HostMap) (h : HostAdd t) : Decidable (h.Skipped d) :=
  inferInstanceAs (Decidable (_ ∨ _))

/-- The host the argument adds, if it adds one. -/
def HostForm.added : HostForm t → Option (String × Value)
  | .add h => if h.Skipped p.1 then none else some (h.hostname s p.2, h.opts)
  | .delete _ => none

def addHost (h : HostAdd t) : HostMap × Nat :=
  if h.Skipped p.1 then p
  else (p.1.setItem (h.hostname s p.2) h.opts, if h.name = none then p.2 + 1 else p.2)

def deleteTarget (d : HostMap) (target : String) : HostMap :=
  if target ∈ d.keys then d.erase target
  else match d.entries.find? fun e => hasIp target e.2 with
    | some e => d.erase e.1
    | none => d

/-- What an argument does to the hosts and the next number. -/
def HostForm.change : HostForm t → HostMap × Nat
  | .add h => addHost s p h
  | .delete target => (deleteTarget p.1 target, p.2)

end Change

/-- What the loop over the arguments starts from: the scanned hosts and the next number. -/
def scanStart (s : Settings) (d : HostMap) : HostMap × Nat :=
  (scannedHosts s.tables d, highestId s.tables d.entries 0 + 1)

section Texts
variable {t : CharTables}

theorem HostAdd.comma_not_mem_ip (h : HostAdd t) : ',' ∉ h.ip.toList := h.noComma h.ip (by simp)

theorem HostAdd.comma_not_mem_accessIp {h : HostAdd t} {b : String} (hb : h.accessIp = some b) :
    ',' ∉ b.toList := h.noComma b (by simp [hb])

theorem HostAdd.splitChar_text (h : HostAdd t) :
    splitChar ',' h.text.toList = h.fields.map String.toList := by
  have hip := h.comma_not_mem_ip
  have hrest : splitChar ',' (h.ip ++ h.accessIp.elim "" ("," ++ ·)).toList =
      (h.ip :: h.accessIp.toList).map String.toList := by
    cases hb : h.accessIp with
    | none => simp [splitChar_of_not_mem _ _ hip]
    | some b =>
      have htext : (h.ip ++ ("," ++ b)).toList = h.ip.toList ++ ',' :: b.toList := by simp
      simp only [Option.elim_some, htext, splitChar_append _ _ _ hip,
        splitChar_of_not_mem _ _ (comma_not_mem_accessIp hb)]
      rfl
  rw [text, fields, String.append_assoc]
  cases hn : h.name with
  | none => simpa using hrest
  | some n =>
    have hname : ',' ∉ n.toList := h.noComma n (by simp [hn])
    have htext : (n ++ "," ++ (h.ip ++ h.accessIp.elim "" ("," ++ ·))).toList =
        n.toList ++ ',' :: (h.ip ++ h.accessIp.elim "" ("," ++ ·)).toList := by simp
    rw [Option.elim_some, htext, splitChar_append _ _ _ hname, hrest]
    rfl

theorem HostAdd.comma_mem_text (h : HostAdd t) :
    ',' ∈ h.text.toList ↔ h.name.isSome ∨ h.accessIp.isSome := by
  have hip := h.comma_not_mem_ip
  cases hn : h.name <;> cases hb : h.accessIp <;> simp [text, hn, hb, hip]

/-- The first character decides how an argument is read. -/
theorem HostAdd.text_cons (h : HostAdd t) : ∃ c cs, h.text.toList = c :: cs ∧ c ≠ '-' ∧
    t.isdigit c = h.name.isNone ∧ (h.name.isSome → t.isalpha c = true) := by
  have hdash : t.isdigit '-' = false ∧ t.isalpha '-' = false :=
    ⟨t.isdigit_ascii '-' (by decide), t.isalpha_ascii '-' (by decide)⟩
  cases hn : h.name with
  | none =>
    obtain ⟨c, cs, hc, hd⟩ := h.address hn
    refine ⟨c, cs ++ (h.accessIp.elim "" ("," ++ ·)).toList, by simp [text, hn, hc], ?_, hd, by simp⟩
    rintro rfl
    rw [hdash.1] at hd
    cases hd
  | some n =>
    obtain ⟨c, cs, hc, halpha, hd⟩ := h.named n hn
    refine ⟨c, cs ++ ("," ++ h.ip ++ h.accessIp.elim "" ("," ++ ·)).toList,
      by simp [text, hn, hc], ?_, hd, fun _ => halpha⟩
    rintro rfl
    rw [hdash.2] at halpha
    cases halpha

end Texts

section Lookup

theorem getIpFromOpts_isOk {v : Value} {ip : String} (h : hasIp ip v = true) :
    getIpFromOpts v = .ok (.str ip) := by
  rw [hasIp] at h
  cases hv : getIpFromOpts v with
  | error e => simp [hv, Except.toOption] at h
  | ok w =>
    cases w <;> simp_all [Except.toOption, Value.isStr]

@[simp] theorem hasIp_hostOpts (ip ip' accessIp : String) :
    hasIp ip (hostOpts ip' accessIp) = decide (ip' = ip) := rfl

theorem findIp_eq (ip : String) (l : List (String × Value))
    (h : ∀ e ∈ l, ∃ w, getIpFromOpts e.2 = .ok w) :
    findIp ip l = .ok ((l.find? fun e => hasIp ip e.2).map Prod.fst) := by
  induction l with
  | nil => rfl
  | cons e l ih =>
    obtain ⟨hostname, opts⟩ := e
    obtain ⟨w, hw⟩ := h (hostname, opts) (by simp)
    have hhas : hasIp ip opts = w.isStr ip := by simp [hasIp, hw, Except.toOption]
    rw [findIp, hw, Except.bind_ok, List.find?_cons, hhas]
    cases w.isStr ip with
    | true => rfl
    | false => exact ih fun e he => h e (List.mem_cons_of_mem _ he)

theorem existsIp_eq_knowsIp {d : HostMap} (h : IpsReadable d) (ip : String) :
    existsIp d ip = .ok (knowsIp d ip) := by
  rw [existsIp, findIp_eq ip d.entries h, knowsIp, Except.map, Option.isSome_map,
    List.isSome_find?]

end Lookup

section Loop
variable {s : Settings}

theorem IpsReadable.setItem {d : HostMap} (h : IpsReadable d) (k : String) {v : Value}
    (hv : ∃ w, getIpFromOpts v = .ok w) : IpsReadable (d.setItem k v) := by
  intro e he
  have hl := ((d.setItem k v).lookup_eq_some_iff e.1 e.2).mpr he
  rw [OrderedDict.lookup_setItem] at hl
  split at hl
  · exact Option.some.inj hl ▸ hv
  · exact h e ((d.lookup_eq_some_iff e.1 e.2).mp hl)

theorem IpsReadable.filterKeys {d : HostMap} (h : IpsReadable d) (keep : String → Bool) :
    IpsReadable (d.filterKeys keep) := fun e he => h e (List.mem_of_mem_filter he)

theorem IpsReadable.deleteTarget {d : HostMap} (h : IpsReadable d) (target : String) :
    IpsReadable (deleteTarget d target) := by
  rw [Inventory.deleteTarget]
  split
  · exact h.filterKeys _
  · split
    · exact h.filterKeys _
    · exact h

theorem IpsReadable.change {p : HostMap × Nat} (h : IpsReadable p.1) (f : HostForm s.tables) :
    IpsReadable (f.change s p).1 := by
  cases f with
  | delete target => exact h.deleteTarget target
  | add x =>
    rw [HostForm.change, addHost]
    split
    · exact h
    · exact h.setItem _ ⟨_, rfl⟩

/-- The end of both branches that add a host: it is skipped, or the state becomes `c`. -/
theorem skip_or_add (b c : Scan) (h : IpsReadable b.allHosts) (x : HostAdd s.tables) :
    (if existsHostname b.allHosts x.text then .ok b
    else do
      let known ← existsIp b.allHosts x.ip
      if known then .ok b else Except.ok c) = .ok (if x.Skipped b.allHosts then b else c) := by
  simp only [existsIp_eq_knowsIp h, existsHostname, HostAdd.Skipped, Except.bind_ok]
  by_cases hk : x.text ∈ b.allHosts.keys
  · simp [hk]
  · by_cases hip : knowsIp b.allHosts x.ip = true
    · simp [hk, hip]
    · simp [hk, hip]

/-- `ip` and `ip,access_ip` give the host the next number. -/
theorem addAddress_text (hs : s.useRealHostname = false) (st : Scan)
    (h : IpsReadable st.allHosts) (x : HostAdd s.tables) (hx : x.name = none) :
    ∃ st', addAddress s st x.text = .ok st' ∧
      (st'.allHosts, st'.nextHostId) = addHost s (st.allHosts, st.nextHostId) x := by
  have hread : addAddress s st x.text =
      (let st := { st with ip := some x.ip, accessIp := some x.access }
      if existsHostname st.allHosts x.text then .ok st
      else do
        let known ← existsIp st.allHosts x.ip
        if known then .ok st
        else .ok { st with
          allHosts := st.allHosts.setItem (hostName s st.nextHostId) x.opts
          nextHostId := st.nextHostId + 1 }) := by
    have hsplit := x.splitChar_text
    cases hb : x.accessIp with
    | none =>
      have hno : ',' ∉ x.text.toList := by rw [x.comma_mem_text]; simp [hx, hb]
      have htext : x.text = x.ip := by simp [HostAdd.text, hx, hb]
      rw [addAddress, if_neg hno, Except.bind_ok]
      simp only [hs, htext, HostAdd.opts, HostAdd.access, hb]
      rfl
    | some b =>
      have hcomma : ',' ∈ x.text.toList := by rw [x.comma_mem_text]; simp [hb]
      rw [addAddress, if_pos hcomma, hsplit, HostAdd.fields, hx, hb]
      simp only [Option.toList_none, Option.toList_some, List.nil_append, List.map_cons,
        List.map_nil, String.ofList_toList, hs, HostAdd.opts, HostAdd.access, hb]
      rfl
  refine ⟨_, hread.trans (skip_or_add { st with ip := some x.ip, accessIp := some x.access } _ h x),
    ?_⟩
  rw [addHost, HostAdd.hostname, hx]
  split <;> rfl

/-- `name,ip` and `name,ip,access_ip` give the host the name. -/
theorem addNamed_text (st : Scan) (h : IpsReadable st.allHosts) (x : HostAdd s.tables)
    {n : String} (hx : x.name = some n) : ∃ st', addNamed st x.text = .ok st' ∧
      (st'.allHosts, st'.nextHostId) = addHost s (st.allHosts, st.nextHostId) x := by
  have hread : addNamed st x.text =
      (let st := { st with hostname := some n, ip := some x.ip, accessIp := some x.access }
      if existsHostname st.allHosts x.text then .ok st
      else do
        let known ← existsIp st.allHosts x.ip
        if known then .ok st
        else .ok { st with allHosts := st.allHosts.setItem n x.opts }) := by
    have hcomma : ',' ∈ x.text.toList := by rw [x.comma_mem_text]; simp [hx]
    rw [addNamed, if_pos hcomma, x.splitChar_text, HostAdd.fields, hx]
    cases hb : x.accessIp with
    | none =>
      simp only [Option.toList_none, Option.toList_some, List.singleton_append, List.map_cons,
        List.map_nil, String.ofList_toList, HostAdd.opts, HostAdd.access, hb]
      rfl
    | some b =>
      simp only [Option.toList_some, List.singleton_append, List.map_cons, List.map_nil,
        String.ofList_toList, HostAdd.opts, HostAdd.access, hb]
      rfl
  refine ⟨_, hread.trans (skip_or_add
    { st with hostname := some n, ip := some x.ip, accessIp := some x.access } _ h x), ?_⟩
  rw [addHost, HostAdd.hostname, hx]
  split <;> rfl

theorem deleteHost_eq (st : Scan) (h : IpsReadable st.allHosts) (target : String) :
    deleteHost st target = .ok { st with allHosts := deleteTarget st.allHosts target } := by
  rw [deleteHost, deleteTarget, existsIp_eq_knowsIp h, Except.bind_ok]
  by_cases hk : target ∈ st.allHosts.keys
  · simp [existsHostname, hk]
  · simp only [existsHostname, hk, decide_false, Bool.false_eq_true, if_false]
    rw [deleteHostByIp, findIp_eq target _ h, Except.bind_ok, knowsIp, ← List.isSome_find?]
    cases st.allHosts.entries.find? fun e => hasIp target e.2 with
    | none => rfl
    | some e => rfl

/-- One argument of a documented form. -/
theorem changeHost_text (hs : s.useRealHostname = false) (st : Scan)
    (h : IpsReadable st.allHosts) (f : HostForm s.tables) :
    ∃ st', changeHost s st f.text = .ok st' ∧
      (st'.allHosts, st'.nextHostId) = f.change s (st.allHosts, st.nextHostId) := by
  cases f with
  | delete target =>
    have htext : ("-" ++ target).toList = '-' :: target.toList := by simp
    refine ⟨{ st with allHosts := deleteTarget st.allHosts target }, ?_, rfl⟩
    rw [HostForm.text, changeHost, htext]
    simp only [if_true, String.ofList_toList]
    exact deleteHost_eq st h target
  | add x =>
    obtain ⟨c, cs, hc, hdash, hdigit, halpha⟩ := x.text_cons
    rw [HostForm.text, changeHost, hc]
    simp only [if_neg hdash]
    cases hx : x.name with
    | none =>
      rw [hx] at hdigit
      rw [hdigit, Option.isNone_none, if_pos rfl]
      exact addAddress_text hs st h x hx
    | some n =>
      rw [hx] at hdigit halpha
      rw [hdigit, Option.isNone_some, if_neg Bool.false_ne_true, halpha rfl, if_pos rfl]
      exact addNamed_text st h x hx

theorem changeHosts_text (hs : s.useRealHostname = false) (l : List (HostForm s.tables)) (st : Scan)
    (h : IpsReadable st.allHosts) : ∃ st', (l.map HostForm.text).foldlM (changeHost s) st = .ok st' ∧
      (st'.allHosts, st'.nextHostId) =
        l.foldl (HostForm.change s) (st.allHosts, st.nextHostId) := by
  induction l generalizing st with
  | nil => exact ⟨st, rfl, rfl⟩
  | cons f l ih =>
    obtain ⟨st₁, hst₁, hchange⟩ := changeHost_text hs st h f
    have hhosts : st₁.allHosts = (f.change s (st.allHosts, st.nextHostId)).1 :=
      congrArg Prod.fst hchange
    have h₁ : IpsReadable st₁.allHosts := by
      rw [hhosts]
      exact IpsReadable.change (p := (st.allHosts, st.nextHostId)) h f
    obtain ⟨st', hst', hfold⟩ := ih st₁ h₁
    refine ⟨st', ?_, ?_⟩
    · rw [List.map_cons, List.foldlM_cons, hst₁, Except.bind_ok, hst']
    · rw [List.foldl_cons, ← hchange, hfold]

theorem scannedHosts_readable {d : HostMap} (h : IpsReadable d) :
    IpsReadable (scannedHosts s.tables d) :=
  fun e he => h e ((scanned_initial s.tables d.entries).subset he)

theorem buildHostnames_forms (hs : s.useRealHostname = false) (a : AllGroup) (d : HostMap)
    (hd : a.hosts = .mapping d) (h : IpsReadable d) (l : List (HostForm s.tables)) :
    buildHostnames s a (l.map HostForm.text) =
      .ok (l.foldl (HostForm.change s) (scanStart s d)).1 := by
  obtain ⟨st', hst', hfold⟩ := changeHosts_text hs l
    ⟨scannedHosts s.tables d, highestId s.tables d.entries 0 + 1, none, none, none⟩
    (scannedHosts_readable h)
  simp only [buildHostnames, hd, existingHosts_mapping, hst', Except.bind_ok]
  rw [scanStart, ← hfold]

end Loop

section Ranges
variable {t : CharTables}

/-- No argument of a documented form is taken for a range. -/
theorem rangeOf_form (f : HostForm t) : rangeOf t f.text = .ok [f.text] := by
  refine if_neg fun h => ?_
  obtain ⟨hdash, hhead, halpha⟩ := h
  cases f with
  | delete target => exact hhead (by simp [HostForm.text])
  | add x =>
    cases hx : x.name with
    | none =>
      have hno := x.noRange hx
      have hip : '-' ∉ x.ip.toList := hno x.ip (by simp)
      have haccess : '-' ∉ (x.accessIp.elim "" ("," ++ ·)).toList := by
        cases hb : x.accessIp with
        | none => simp
        | some b => simpa using hno b (by simp [hb])
      rw [HostForm.text, HostAdd.text, hx] at hdash
      simp [hip, haccess] at hdash
    | some n =>
      obtain ⟨c, cs, hc, -, -, hletter⟩ := x.text_cons
      rw [HostForm.text, hc] at halpha
      exact halpha (hletter (by simp [hx]))

theorem range2ips_forms (l : List (HostForm t)) :
    range2ips t (l.map HostForm.text) = .ok (l.map HostForm.text) := by
  have hmap : (l.map HostForm.text).mapM (rangeOf t) = .ok (l.map fun f => [f.text]) := by
    induction l with
    | nil => rfl
    | cons f l ih => rw [List.map_cons, List.mapM_cons, rangeOf_form, Except.bind_ok, ih]; rfl
  rw [range2ips, hmap]
  rw [Except.map, ← List.flatMap_def, List.map_eq_flatMap]

end Ranges

theorem newHosts_forms {s : Settings} (hs : s.useRealHostname = false) (a : AllGroup) (d : HostMap)
    (hd : a.hosts = .mapping d) (h : IpsReadable d) (l : List (HostForm s.tables)) :
    newHosts s a (l.map HostForm.text) =
      .ok (l.foldl (HostForm.change s) (scanStart s d)).1 := by
  rw [newHosts, range2ips_forms, Except.bind_ok, buildHostnames_forms hs a d hd h]
end Kubespray.Inventory

import Kubespray.Inventory.HostForms

/-! Arguments that start with a letter and have no comma: what the variables that earlier
arguments left behind make of them. -/
namespace Kubespray.Inventory

/-- An argument that starts with a letter and is not `name,ip`. -/
structure NameOnly (t : CharTables) (arg : String) : Prop where
  letter : ∃ c cs, arg.toList = c :: cs ∧ t.isalpha c = true ∧ t.isdigit c = false
  noComma : ',' ∉ arg.toList

section Loop
variable (s : Settings)

/-- What the loop of build_hostnames has come to after the arguments. -/
def scanAfter (a : AllGroup) (args : List String) : Except PyError Scan :=
  args.foldlM (changeHost s) ⟨(existingHosts s.tables a.hosts).1,
    (existingHosts s.tables a.hosts).2 + 1, none, none, none⟩

theorem buildHostnames_eq (a : AllGroup) (args : List String) :
    buildHostnames s a args = (scanAfter s a args).map Scan.allHosts := by
  change (scanAfter s a args >>= fun st => .ok st.allHosts) = _
  cases scanAfter s a args <;> rfl

theorem scanAfter_append (a : AllGroup) (args args' : List String) :
    scanAfter s a (args ++ args') = scanAfter s a args >>= fun st => args'.foldlM (changeHost s) st :=
  List.foldlM_append

/-- An earlier argument left a name and addresses, and the ip is no host's any more. -/
def Leftover (st : Scan) : Prop :=
  ∃ hostname ip accessIp, st.hostname = some hostname ∧ st.ip = some ip ∧
    st.accessIp = some accessIp ∧ existsIp st.allHosts ip = .ok false

theorem changeHost_nameOnly {st : Scan} {arg : String} (harg : NameOnly s.tables arg)
    (hknown : arg ∉ st.allHosts.keys) : changeHost s st arg = (do
      let ip ← readLocal "ip" st.ip
      let known ← existsIp st.allHosts ip
      if known then .ok st
      else
        let accessIp ← readLocal "access_ip" st.accessIp
        let hostname ← readLocal "hostname" st.hostname
        .ok { st with allHosts := st.allHosts.setItem hostname (hostOpts ip accessIp) }) := by
  obtain ⟨c, cs, hc, hletter, hdigit⟩ := harg.letter
  have hdash : c ≠ '-' := by
    rintro rfl
    have halpha : s.tables.isalpha '-' = false := s.tables.isalpha_ascii '-' (by decide)
    rw [halpha] at hletter
    cases hletter
  rw [changeHost, hc]
  simp only [if_neg hdash, hdigit, hletter, Bool.false_eq_true, if_false, if_true]
  rw [addNamed, if_neg harg.noComma]
  simp only [Except.bind_ok, existsHostname, hknown, decide_false, Bool.false_eq_true, if_false]

/-- Without leftovers the argument raises or leaves the loop as it is. -/
theorem changeHost_of_not_leftover {st st' : Scan} {arg : String} (harg : NameOnly s.tables arg)
    (hknown : arg ∉ st.allHosts.keys) (hno : ¬ Leftover st)
    (h : changeHost s st arg = .ok st') : st' = st := by
  rw [changeHost_nameOnly s harg hknown] at h
  obtain ⟨ip, hip, h⟩ := Runs.bind_eq_ok h
  obtain ⟨known, hk, h⟩ := Runs.bind_eq_ok h
  cases known with
  | true => exact (Except.ok.inj h).symm
  | false =>
    obtain ⟨accessIp, haccess, h⟩ := Runs.bind_eq_ok h
    obtain ⟨hostname, hname, -⟩ := Runs.bind_eq_ok h
    have hread : ∀ {name v : String} {x : Option String}, readLocal name x = .ok v → x = some v := by
      intro name v x hx
      cases x with
      | none => cases hx
      | some w => exact congrArg some (Except.ok.inj hx)
    exact absurd ⟨hostname, ip, accessIp, hread hname, hread hip, hread haccess, hk⟩ hno

theorem changeHost_of_leftover {st : Scan} {arg hostname ip accessIp : String}
    (harg : NameOnly s.tables arg) (hknown : arg ∉ st.allHosts.keys)
    (hname : st.hostname = some hostname) (hip : st.ip = some ip)
    (haccess : st.accessIp = some accessIp) (hnew : existsIp st.allHosts ip = .ok false) :
    changeHost s st arg =
      .ok { st with allHosts := st.allHosts.setItem hostname (hostOpts ip accessIp) } := by
  rw [changeHost_nameOnly s harg hknown, hname, hip, haccess]
  simp only [readLocal, Except.bind_ok, hnew, Bool.false_eq_true, if_false]

/-- What exists_ip does not find is no host's. -/
theorem hasIp_of_existsIp {d : HostMap} {ip : String} (h : existsIp d ip = .ok false)
    {e : String × Value} (he : e ∈ d.entries) : hasIp ip e.2 = false := by
  have hfind : ∀ l : List (String × Value), (findIp ip l).map Option.isSome = .ok false →
      ∀ e ∈ l, hasIp ip e.2 = false := by
    intro l
    induction l with
    | nil => simp
    | cons x l ih =>
      intro hx
      rw [findIp] at hx
      cases hget : getIpFromOpts x.2 with
      | error err =>
        rw [hget] at hx
        cases hx
      | ok w =>
        rw [hget, Except.bind_ok] at hx
        cases hw : w.isStr ip with
        | true =>
          rw [hw] at hx
          cases hx
        | false =>
          rw [hw] at hx
          refine List.forall_mem_cons.mpr ⟨?_, ih hx⟩
          simp [hasIp, hget, Except.toOption, hw]
  exact hfind d.entries h e he

/-- Where the call with the argument returns, the call without it returns the same. -/
def NotDecided (a : AllGroup) (pre : List String) (arg : String) (rest : List String) : Prop :=
  ∀ hosts, buildHostnames s a (pre ++ arg :: rest) = .ok hosts →
    buildHostnames s a (pre ++ rest) = .ok hosts

/-- Whatever follows it, such an argument raises or does nothing exactly where no leftovers
stand before it. -/
theorem notDecided_iff (a : AllGroup) (pre : List String) (arg : String)
    (harg : NameOnly s.tables arg)
    (hknown : ∀ st, scanAfter s a pre = .ok st → arg ∉ st.allHosts.keys) :
    (∀ rest, NotDecided s a pre arg rest) ↔ ∀ st, scanAfter s a pre = .ok st → ¬ Leftover st := by
  constructor
  · intro h st hst hleft
    obtain ⟨hostname, ip, accessIp, hname, hip, haccess, hnew⟩ := hleft
    have hstep := changeHost_of_leftover s harg (hknown st hst) hname hip haccess hnew
    -- The argument is the last one, and its host is new.
    have hlast := h [] (st.allHosts.setItem hostname (hostOpts ip accessIp)) (by
      rw [buildHostnames_eq, scanAfter_append, hst, Except.bind_ok, List.foldlM_cons, hstep]
      rfl)
    rw [List.append_nil, buildHostnames_eq, hst] at hlast
    have hsame := Except.ok.inj hlast
    have hin : st.allHosts.lookup hostname = some (hostOpts ip accessIp) := by
      rw [hsame]
      simp
    have hfound := hasIp_of_existsIp hnew ((st.allHosts.lookup_eq_some_iff _ _).mp hin)
    simp at hfound
  · intro h rest hosts hhosts
    rw [buildHostnames_eq, scanAfter_append] at hhosts ⊢
    cases hst : scanAfter s a pre with
    | error e =>
      rw [hst] at hhosts
      cases hhosts
    | ok st =>
      rw [hst, Except.bind_ok, List.foldlM_cons] at hhosts
      cases hstep : changeHost s st arg with
      | error e =>
        rw [hstep] at hhosts
        cases hhosts
      | ok st' =>
        rw [hstep, Except.bind_ok,
          changeHost_of_not_leftover s harg (hknown st hst) (h st hst) hstep] at hhosts
        exact hhosts

end Loop

/-- A host is added and deleted again. -/
def addedDeleted : List String := ["first,10.0.0.1", "-first"]

theorem foo_nameOnly : NameOnly CharTables.ascii "foo" :=
  ⟨⟨'f', ['o', 'o'], by decide, by decide, by decide⟩, by decide⟩

theorem foo_notDecided_iff :
    (∀ rest, NotDecided {} initial addedDeleted "foo" rest) ↔
      ∀ st, scanAfter {} initial addedDeleted = .ok st → ¬ Leftover st := by
  refine notDecided_iff {} initial addedDeleted "foo" foo_nameOnly fun st hst => ?_
  have hkeys : (scanAfter {} initial addedDeleted).toOption.map
      (fun st => decide ("foo" ∈ st.allHosts.keys)) = some false := by decide +kernel
  rw [hst] at hkeys
  simpa [Except.toOption] using hkeys

/-- The name alone adds the deleted host again. -/
theorem foo_adds_first : ¬ ∀ rest, NotDecided {} initial addedDeleted "foo" rest := by
  intro h
  have hwith : (buildHostnames {} initial (addedDeleted ++ ["foo"])).toOption.map (·.keys) =
      some ["first"] := by decide +kernel
  have hwithout : (buildHostnames {} initial addedDeleted).toOption.map (·.keys) = some [] := by
    decide +kernel
  cases hhosts : buildHostnames {} initial (addedDeleted ++ ["foo"]) with
  | error e => simp [hhosts, Except.toOption] at hwith
  | ok hosts =>
    have hsame := h [] hosts hhosts
    rw [List.append_nil] at hsame
    rw [hsame] at hwithout
    rw [hhosts] at hwith
    simp only [Except.toOption, Option.map_some] at hwith hwithout
    rw [hwith] at hwithout
    cases hwithout

end Kubespray.Inventory

import Kubespray.Inventory.Run

/-! Separate invocations of the inventory builder on one CONFIG_FILE: what each of them
takes over from the file that the previous one wrote. -/
namespace Kubespray.Inventory

def IsBuild (args : List String) : Prop := ∃ first ∈ args.head?, first ∉ availableCommands

def OnlyAdds (args : List String) : Prop := ∀ arg ∈ args, arg.toList.head? ≠ some '-'

section Invocations
variable {Text : Type} (s : Settings) (y : Yaml Text) (files : String → JsonFile)

/-- What is stored is where the invocation starts from and what it prints. -/
structure ReadsBack (stored : Option Text) (args : List String) : Prop where
  starts : ∀ a, stored = some (y.dump a) → IsBuild args →
    ∃ a', (loadConfig y stored).ensureRequiredGroups roles = .ok (.dict (some a')) ∧
      a'.hosts = a.hosts ∧ ∀ g, a'.members g = a.members g
  keeps : ∀ a d, stored = some (y.dump a) → a.hosts = .mapping d → IsBuild args → OnlyAdds args →
    ∀ b, (invoke s y files stored args).2 = some (y.dump b) →
      ∀ e ∈ d.entries, ∃ d', b.hosts = .mapping d' ∧ e ∈ d'.entries
  hostnames : ∀ a, stored = some (y.dump a) → args.head? = some "print_hostnames" →
    (invoke s y files stored args).1 = .ok (.line (" ".intercalate a.hostNames))
  ips : ∀ a, stored = some (y.dump a) → args.head? = some "print_ips" →
    ∃ text, printIps (.dict (some a)) = .ok (.line text) ∧
      (invoke s y files stored args).1 = .ok (.line text)

/-- The invocations one after the other, as steps on the content of the file. -/
def fileStep (stored : Option Text) (args : List String) : Except Empty (Option Text) :=
  .ok (invoke s y files stored args).2

/-- The generator that load_all returns is run through in search of 'all', and the
configuration starts afresh. -/
theorem ensureRequiredGroups_stored (a : AllGroup) :
    (loadConfig y (some (y.dump a))).ensureRequiredGroups roles = .ok (.dict (some initial)) := by
  rw [loadConfig, y.load_dump]
  rfl

theorem invoke_printHostnames (a : AllGroup) (rest : List String) :
    (invoke s y files (some (y.dump a)) ("print_hostnames" :: rest)).1 = .error .typeError := by
  simp only [invoke, loadConfig, y.load_dump]
  rfl

theorem invoke_printIps (a : AllGroup) (rest : List String) :
    (invoke s y files (some (y.dump a)) ("print_ips" :: rest)).1 = .error .typeError := by
  simp only [invoke, loadConfig, y.load_dump]
  rfl

/-- An invocation reads back what is stored exactly when it does not print it and, where it
changes hosts, nothing is stored. -/
theorem readsBack_iff (stored : Option Text) (args : List String) :
    ReadsBack s y files stored args ↔ ∀ a, stored = some (y.dump a) →
      (IsBuild args → a.hosts = .mapping ∅ ∧ ∀ g, a.members g = []) ∧
        args.head? ≠ some "print_hostnames" ∧ args.head? ≠ some "print_ips" := by
  constructor
  · intro h a ha
    refine ⟨fun hb => ?_, fun hp => ?_, fun hp => ?_⟩
    · obtain ⟨a', hstart, hhosts, hmembers⟩ := h.starts a ha hb
      rw [ha, ensureRequiredGroups_stored] at hstart
      obtain rfl : initial = a' := by simpa using hstart
      exact ⟨hhosts.symm, fun g => (hmembers g).symm.trans (initial_members g)⟩
    · have hout := h.hostnames a ha hp
      obtain ⟨rest, rfl⟩ := List.head?_eq_some_iff.mp hp
      rw [ha, invoke_printHostnames] at hout
      cases hout
    · obtain ⟨text, -, hout⟩ := h.ips a ha hp
      obtain ⟨rest, rfl⟩ := List.head?_eq_some_iff.mp hp
      rw [ha, invoke_printIps] at hout
      cases hout
  · intro h
    refine ⟨fun a ha hb => ?_, fun a d ha hd hb _ b _ e he => ?_, fun a ha hp => ?_,
      fun a ha hp => ?_⟩
    · obtain ⟨hhosts, hmembers⟩ := (h a ha).1 hb
      refine ⟨initial, ha ▸ ensureRequiredGroups_stored y a, hhosts.symm, fun g => ?_⟩
      rw [hmembers g, initial_members g]
    · obtain ⟨hhosts, -⟩ := (h a ha).1 hb
      obtain rfl : d = ∅ := HostsKey.mapping.inj (hd.symm.trans hhosts)
      cases he
    · exact absurd hp (h a ha).2.1
    · exact absurd hp (h a ha).2.2

/-- Over any sequence of invocations on a file that does not exist at first, each reads back
what was stored exactly when none prints a stored inventory, and those that change hosts find
no file or an inventory without hosts and members. -/
theorem invocations_readBack_iff (is : List (List String)) :
    Runs.Along (fileStep s y files) (fun stored args _ => ReadsBack s y files stored args)
        none is ↔
      Runs.Along (fileStep s y files) (fun stored args _ => ∀ a, stored = some (y.dump a) →
        (IsBuild args → a.hosts = .mapping ∅ ∧ ∀ g, a.members g = []) ∧
          args.head? ≠ some "print_hostnames" ∧ args.head? ≠ some "print_ips") none is :=
  Runs.along_iff_along (I := fun _ => True)
    (fun stored args _ _ _ => readsBack_iff s y files stored args) (fun _ _ _ _ _ _ => trivial)
    trivial is

end Invocations

def plainYaml : Yaml AllGroup where
  dump a := a
  loadAll a := [.mapping a]
  load_dump _ := rfl

/-- A second invocation with another address does not start from the stored host. -/
theorem second_invocation_starts_afresh : ¬ ∀ is : List (List String),
    Runs.Along (fileStep {} plainYaml fun _ => .unreadable)
      (fun stored args _ => ReadsBack {} plainYaml (fun _ => .unreadable) stored args) none is := by
  intro h
  obtain ⟨-, hsecond, -⟩ := h [["10.0.0.1"], ["10.0.0.2"]]
  have hnames : ((invoke {} plainYaml (fun _ => .unreadable) none ["10.0.0.1"]).2).map
      AllGroup.hostNames = some ["node1"] := by decide
  cases hstored : (invoke {} plainYaml (fun _ => .unreadable) none ["10.0.0.1"]).2 with
  | none => simp [hstored] at hnames
  | some a =>
    obtain ⟨a', hstart, hhosts, -⟩ := hsecond.starts a hstored ⟨_, rfl, by decide⟩
    rw [hstored] at hstart
    obtain rfl : initial = a' := by
      simpa [ensureRequiredGroups_stored plainYaml a] using
        (ensureRequiredGroups_stored plainYaml a).symm.trans hstart
    have hempty : a.hostNames = [] := by rw [AllGroup.hostNames, ← hhosts]; rfl
    simp [hstored, hempty] at hnames

end Kubespray.Inventory

import Mathlib.Data.List.Basic

/-! Task lists on one host, any task of which may fail or be cut short. A rescue section sees the
failures only: nothing follows where the host became unreachable or the play was stopped. -/

namespace Playbook

/-- How a command ends, and whether it has taken effect by then. -/
inductive Outcome where
  | ok
  | failed (applied : Bool)
  | aborted (applied : Bool)
  deriving DecidableEq

def Outcome.applied : Outcome → Bool
  | .ok => true
  | .failed applied => applied
  | .aborted applied => applied

/-- What a task with a `when` condition comes to. -/
def Outcome.given (c : Bool) (o : Outcome) : Outcome := if c then o else .ok

inductive Ended (σ : Type*) where
  | completed (s : σ)
  | failed (s : σ)
  | aborted (s : σ)

/-- A task, or several. -/
abbrev Action (σ : Type*) := σ → Ended σ

namespace Ended
variable {σ : Type*}

def state : Ended σ → σ
  | .completed s => s
  | .failed s => s
  | .aborted s => s

def andThen (e : Ended σ) (t : Action σ) : Ended σ :=
  match e with
  | .completed s => t s
  | e => e

def orRescue (e : Ended σ) (t : Action σ) : Ended σ :=
  match e with
  | .failed s => t s
  | e => e

/-- The end of a list of commands, the first of which not to go well ended so. -/
def upTo (first? : Option Outcome) (s : σ) : Ended σ :=
  match first? with
  | none => .completed s
  | some .ok => .completed s
  | some (.failed _) => .failed s
  | some (.aborted _) => .aborted s

@[simp] theorem state_upTo (first? : Option Outcome) (s : σ) : (upTo first? s).state = s := by
  cases first? with
  | none => rfl
  | some o => cases o <;> rfl

/-- It did not complete, and left this state. -/
def StoppedAt (e : Ended σ) (s : σ) : Prop := e = .failed s ∨ e = .aborted s

theorem StoppedAt.andThen {e : Ended σ} {s : σ} (h : e.StoppedAt s) (t : Action σ) :
    (e.andThen t).StoppedAt s := by
  obtain rfl | rfl := h
  · exact .inl rfl
  · exact .inr rfl

theorem StoppedAt.state_eq {e : Ended σ} {s : σ} (h : e.StoppedAt s) : e.state = s := by
  obtain rfl | rfl := h <;> rfl

theorem StoppedAt.ne_completed {e : Ended σ} {s : σ} (h : e.StoppedAt s) (s' : σ) :
    e ≠ .completed s' := by
  obtain rfl | rfl := h
  · exact fun he => nomatch he
  · exact fun he => nomatch he

theorem completed_or_stopped (e : Ended σ) : (∃ s, e = .completed s) ∨ ∃ s, e.StoppedAt s := by
  cases e with
  | completed s => exact .inl ⟨s, rfl⟩
  | failed s => exact .inr ⟨s, .inl rfl⟩
  | aborted s => exact .inr ⟨s, .inr rfl⟩

theorem andThen_assoc (e : Ended σ) (t u : Action σ) :
    (e.andThen t).andThen u = e.andThen fun s => (t s).andThen u := by
  cases e <;> rfl

end Ended

section Actions
variable {σ : Type*}

/-- A task with a `when` condition. -/
def only (c : Bool) (t : Action σ) : Action σ := if c then t else .completed

def inOrder : List (Action σ) → σ → Ended σ
  | [], s => .completed s
  | t :: ts, s => (t s).andThen (inOrder ts)

def block (tasks rescue : List (Action σ)) : Action σ := fun s =>
  (inOrder tasks s).orRescue (inOrder rescue)

/-- A command with the effect `f`, which refuses the states where there is none. -/
def perform (o : Outcome) (f : σ → Option σ) : Action σ := fun s =>
  match o with
  | .ok => (f s).elim (.failed s) .completed
  | .failed applied => .failed (if applied then (f s).getD s else s)
  | .aborted applied => .aborted (if applied then (f s).getD s else s)

/-- A task that changes nothing that is modelled. -/
def noEffect (o : Outcome) : Action σ := perform o some

/-- Whatever its tasks come to, `P` still holds afterwards. -/
def Preserves (P : σ → Prop) (t : Action σ) : Prop := ∀ s, P s → P (t s).state

theorem inOrder_append (ts us : List (Action σ)) (s : σ) :
    inOrder (ts ++ us) s = (inOrder ts s).andThen (inOrder us) := by
  induction ts generalizing s with
  | nil => rfl
  | cons t ts ih =>
    rw [List.cons_append, inOrder, inOrder, Ended.andThen_assoc]
    cases t s with
    | completed s' => exact ih s'
    | failed s' => rfl
    | aborted s' => rfl

theorem state_perform (o : Outcome) (f : σ → Option σ) (s : σ) :
    (perform o f s).state = if o.applied then (f s).getD s else s := by
  cases o with
  | ok => cases hf : f s <;> simp [perform, hf, Outcome.applied, Ended.state]
  | failed applied => rfl
  | aborted applied => rfl

theorem perform_ok {f : σ → Option σ} {s s' : σ} (h : f s = some s') :
    perform .ok f s = .completed s' := by
  simp [perform, h]

theorem perform_completed_iff {o : Outcome} {f : σ → Option σ} {s s' : σ} :
    perform o f s = .completed s' ↔ o = .ok ∧ f s = some s' := by
  cases o with
  | ok => cases hf : f s <;> simp [perform, hf]
  | failed applied => simp [perform]
  | aborted applied => simp [perform]

theorem perform_stopped {o : Outcome} (ho : o ≠ .ok) (f : σ → Option σ) (s : σ) :
    (perform o f s).StoppedAt (perform o f s).state := by
  cases o with
  | ok => exact absurd rfl ho
  | failed applied => exact .inl rfl
  | aborted applied => exact .inr rfl

theorem noEffect_stopped {o : Outcome} (ho : o ≠ .ok) (s : σ) : (noEffect o s).StoppedAt s := by
  have h := perform_stopped ho some s
  rw [state_perform] at h
  simpa [noEffect] using h

theorem state_andThen_noEffect (e : Ended σ) (o : Outcome) :
    (e.andThen (inOrder [noEffect o])).state = e.state := by
  cases e with
  | completed s =>
    by_cases ho : o = .ok
    · rw [ho]
      rfl
    · exact ((noEffect_stopped ho s).andThen _).state_eq
  | failed s => rfl
  | aborted s => rfl

theorem inOrder_noEffect_ok {os : List Outcome} (h : ∀ o ∈ os, o = .ok) (s : σ) :
    inOrder (os.map noEffect) s = .completed s := by
  induction os with
  | nil => rfl
  | cons o os ih =>
    rw [List.map_cons, inOrder, h o (by simp)]
    exact ih fun x hx => h x (List.mem_cons_of_mem o hx)

theorem inOrder_noEffect_stopped {os : List Outcome} (h : ¬ ∀ o ∈ os, o = .ok) (s : σ) :
    (inOrder (os.map noEffect) s).StoppedAt s := by
  induction os with
  | nil => simp at h
  | cons o os ih =>
    rw [List.map_cons, inOrder]
    by_cases ho : o = .ok
    · rw [ho]
      refine ih fun hall => h fun x hx => ?_
      cases List.mem_cons.mp hx with
      | inl hx => rw [hx, ho]
      | inr hx => exact hall x hx
    · exact (noEffect_stopped ho s).andThen _

theorem only_perform (c : Bool) (o : Outcome) (f : σ → Option σ) :
    only c (perform o f) = perform (o.given c) (if c then f else some) := by
  cases c with
  | true => rfl
  | false => rfl

/-- The states that commands go through where all of them go well. -/
inductive Path : List (Outcome × (σ → Option σ)) → σ → List σ → Prop
  | nil {s : σ} : Path [] s []
  | cons {o : Outcome} {f : σ → Option σ} {s s' : σ} {cs : List (Outcome × (σ → Option σ))}
      {ss : List σ} : f s = some s' → Path cs s' ss → Path ((o, f) :: cs) s (s' :: ss)

/-- They end as the first that does not go well, in one of these states, and in the last of them
when there is no such command. -/
theorem Path.inOrder_eq {cs : List (Outcome × (σ → Option σ))} {s : σ} {ss : List σ}
    (h : Path cs s ss) : ∃ t ∈ s :: ss, inOrder (cs.map fun c => perform c.1 c.2) s =
      .upTo ((cs.map Prod.fst).find? (· ≠ .ok)) t ∧
        ((∀ c ∈ cs, c.1 = .ok) → t = ss.getLastD s) := by
  induction h with
  | @nil s => exact ⟨s, by simp, rfl, fun _ => rfl⟩
  | @cons o f s s' cs ss hf _ ih =>
    have hstate : (if o.applied then (f s).getD s else s) ∈ s :: s' :: ss := by
      rw [hf]
      cases o.applied <;> simp
    rw [List.map_cons, List.map_cons, inOrder]
    cases o with
    | ok =>
      obtain ⟨t, ht, hend, hlast⟩ := ih
      rw [perform_ok hf]
      refine ⟨t, List.mem_cons_of_mem s ht, hend, fun hall => ?_⟩
      rw [List.getLastD_cons]
      exact hlast fun c hc => hall c (List.mem_cons_of_mem _ hc)
    | failed applied => exact ⟨_, hstate, rfl, fun hall => absurd (hall _ List.mem_cons_self) nofun⟩
    | aborted applied => exact ⟨_, hstate, rfl, fun hall => absurd (hall _ List.mem_cons_self) nofun⟩

section Preserves
variable {P : σ → Prop}

theorem Preserves.inOrder {ts : List (Action σ)} (h : ∀ t ∈ ts, Preserves P t) :
    Preserves P (inOrder ts) := by
  induction ts with
  | nil => exact fun s hs => hs
  | cons t ts ih =>
    intro s hs
    have ht := h t (by simp) s hs
    have hts := ih fun u hu => h u (List.mem_cons_of_mem t hu)
    rw [Playbook.inOrder]
    cases he : t s with
    | completed s' =>
      rw [he] at ht
      exact hts s' ht
    | failed s' => rwa [he] at ht
    | aborted s' => rwa [he] at ht

theorem preserves_perform (o : Outcome) {f : σ → Option σ}
    (h : ∀ s s', P s → f s = some s' → P s') : Preserves P (perform o f) := by
  intro s hs
  rw [state_perform]
  split
  · cases hf : f s with
    | none => exact hs
    | some s' => exact h s s' hs hf
  · exact hs

theorem preserves_noEffect (o : Outcome) : Preserves P (noEffect o) :=
  preserves_perform o fun _ _ hs he => Option.some.inj he ▸ hs

/-- How commands end that are never refused where `P` holds: as the first that does not go well. -/
theorem inOrder_perform (cs : List (Outcome × (σ → Option σ)))
    (h : ∀ c ∈ cs, ∀ s, P s → ∃ s', c.2 s = some s' ∧ P s') (s : σ) (hs : P s) :
    ∃ s', P s' ∧ inOrder (cs.map fun c => perform c.1 c.2) s =
      .upTo ((cs.map Prod.fst).find? (· ≠ .ok)) s' := by
  have hpath : ∃ ss, Path cs s ss ∧ ∀ t ∈ s :: ss, P t := by
    induction cs generalizing s with
    | nil => exact ⟨[], .nil, by simpa using hs⟩
    | cons c cs ih =>
      obtain ⟨s', hc, hs'⟩ := h c (by simp) s hs
      obtain ⟨ss, hrest, hall⟩ := ih (fun x hx => h x (List.mem_cons_of_mem c hx)) s' hs'
      exact ⟨s' :: ss, .cons hc hrest, List.forall_mem_cons.mpr ⟨hs, hall⟩⟩
  obtain ⟨ss, hcs, hall⟩ := hpath
  obtain ⟨t, ht, hend, -⟩ := hcs.inOrder_eq
  exact ⟨t, hall t ht, hend⟩

end Preserves

end Actions
end Playbook

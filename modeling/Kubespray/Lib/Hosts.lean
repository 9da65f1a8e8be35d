import Kubespray.Lib.Tasks
import Mathlib.Logic.Function.Basic

/-! Tasks that are tried again until an attempt is accepted, and tasks that several hosts run side
by side in a play that ends with the first task to fail anywhere. -/
namespace Playbook
variable {σ η : Type*}

def Ended.isCompleted : Ended σ → Bool
  | .completed _ => true
  | .failed _ => false
  | .aborted _ => false

@[simp] theorem Ended.state_completed (s : σ) : (Ended.completed s).state = s := rfl

theorem Ended.isCompleted_iff (e : Ended σ) : e.isCompleted = true ↔ e = .completed e.state := by
  cases e <;> simp [isCompleted, state]

def Ended.map {τ : Type*} (f : τ → σ) : Ended τ → Ended σ
  | .completed s => .completed (f s)
  | .failed s => .failed (f s)
  | .aborted s => .aborted (f s)

/-- A task on a part of the state. -/
def focus {τ : Type*} (get : σ → τ) (set : τ → σ → σ) (t : Action τ) : Action σ := fun s =>
  (t (get s)).map fun x => set x s

/-- `until`: an attempt that fails is followed by the next one, in the state it left. -/
def retry : List (Action σ) → Action σ
  | [], s => .failed s
  | t :: ts, s => (t s).orRescue (retry ts)

/-- A task with a loop goes through all of its items, and fails where one of them has. -/
def eachItem : List (Action σ) → Action σ
  | [], s => .completed s
  | t :: ts, s =>
    match t s with
    | .completed s' => eachItem ts s'
    | .failed s' => .failed (eachItem ts s').state
    | .aborted s' => .aborted s'

/-- A task of a play with any_errors_fatal: each of the hosts runs it on a state of its own. -/
def onHosts [DecidableEq η] (hs : List η) (t : η → Action σ) : Action (η → σ) := fun s =>
  let s' := fun h => if h ∈ hs then (t h (s h)).state else s h
  if hs.all fun h => (t h (s h)).isCompleted then .completed s' else .failed s'

section Retry
variable {P : σ → Prop}

theorem Preserves.retry {ts : List (Action σ)} (h : ∀ t ∈ ts, Preserves P t) :
    Preserves P (retry ts) := by
  induction ts with
  | nil => exact fun s hs => hs
  | cons t ts ih =>
    intro s hs
    have ht := h t (by simp) s hs
    have hts := ih fun u hu => h u (List.mem_cons_of_mem t hu)
    rw [Playbook.retry]
    cases he : t s with
    | completed s' => rwa [he] at ht
    | failed s' =>
      rw [he] at ht
      exact hts s' ht
    | aborted s' => rwa [he] at ht

theorem retry_rel {R : σ → σ → Prop} (hrefl : ∀ s, R s s) (htrans : ∀ s t u, R s t → R t u → R s u)
    {ts : List (Action σ)} (h : ∀ t ∈ ts, ∀ s, R s (t s).state) (s : σ) : R s (retry ts s).state := by
  induction ts generalizing s with
  | nil => exact hrefl s
  | cons t ts ih =>
    have ht := h t (by simp) s
    rw [retry]
    cases he : t s with
    | completed u => rwa [he] at ht
    | failed u =>
      rw [he] at ht
      exact htrans s u _ ht (ih (fun x hx => h x (List.mem_cons_of_mem t hx)) u)
    | aborted u => rwa [he] at ht

/-- The last attempt was accepted. -/
theorem retry_completed {ts : List (Action σ)} {s s' : σ} (h : retry ts s = .completed s') :
    ∃ t ∈ ts, ∃ u, t u = .completed s' := by
  induction ts generalizing s with
  | nil => cases h
  | cons t ts ih =>
    rw [retry] at h
    cases he : t s with
    | completed u =>
      rw [he] at h
      exact ⟨t, by simp, s, he.trans h⟩
    | failed u =>
      rw [he] at h
      obtain ⟨x, hx, hacc⟩ := ih h
      exact ⟨x, List.mem_cons_of_mem t hx, hacc⟩
    | aborted u =>
      rw [he] at h
      cases h

/-- A rescue section of one task is a second attempt. -/
theorem block_singleton (t u : Action σ) : block [t] [u] = retry [t, u] := by
  funext s
  simp only [block, inOrder, retry]
  cases t s with
  | completed s' => rfl
  | failed s' => simp only [Ended.andThen, Ended.orRescue]; cases u s' <;> rfl
  | aborted s' => rfl

end Retry

section Focus
variable {τ : Type*} {get : σ → τ} {set : τ → σ → σ} {t : Action τ} {s s' : σ}

theorem focus_state (get : σ → τ) (set : τ → σ → σ) (t : Action τ) (s : σ) :
    (focus get set t s).state = set (t (get s)).state s := by
  rw [focus]
  cases t (get s) <;> rfl

theorem focus_completed (h : focus get set t s = .completed s') :
    ∃ x, t (get s) = .completed x ∧ s' = set x s := by
  rw [focus] at h
  cases he : t (get s) with
  | completed x =>
    rw [he] at h
    exact ⟨x, rfl, (Ended.completed.inj h).symm⟩
  | failed x =>
    rw [he] at h
    cases h
  | aborted x =>
    rw [he] at h
    cases h

end Focus

section InOrder
variable {t : Action σ} {ts : List (Action σ)} {s s' : σ}

/-- Tasks complete where each of them does. -/
theorem completed_of_cons (h : inOrder (t :: ts) s = .completed s') :
    ∃ u, t s = .completed u ∧ (t s).state = u ∧ inOrder ts u = .completed s' := by
  rw [inOrder] at h
  cases he : t s with
  | completed u =>
    rw [he] at h
    exact ⟨u, rfl, rfl, h⟩
  | failed u =>
    rw [he] at h
    cases h
  | aborted u =>
    rw [he] at h
    cases h

/-- The rest of the tasks follows where the first one completes. -/
theorem inOrder_cons_cases (t : Action σ) (ts : List (Action σ)) (s : σ) :
    (∃ u, t s = .completed u ∧ inOrder (t :: ts) s = inOrder ts u) ∨
      inOrder (t :: ts) s = t s := by
  rw [inOrder]
  cases t s with
  | completed u => exact .inl ⟨u, rfl, rfl⟩
  | failed u => exact .inr rfl
  | aborted u => exact .inr rfl

/-- Tasks each of which keeps to a preorder keep to it together. -/
theorem inOrder_rel {R : σ → σ → Prop} (hrefl : ∀ s, R s s) (htrans : ∀ s t u, R s t → R t u → R s u)
    {ts : List (Action σ)} (h : ∀ t ∈ ts, ∀ s, R s (t s).state) (s : σ) :
    R s (inOrder ts s).state := by
  induction ts generalizing s with
  | nil => exact hrefl s
  | cons t ts ih =>
    have ht := h t (by simp) s
    cases inOrder_cons_cases t ts s with
    | inr hends => rwa [hends]
    | inl hex =>
      obtain ⟨u, hu, hrest⟩ := hex
      rw [hu] at ht
      rw [hrest]
      exact htrans s u _ ht (ih (fun x hx => h x (List.mem_cons_of_mem t hx)) u)

/-- Of tasks that have completed, each did so between the first state and the last. -/
theorem exists_of_inOrder {R : σ → σ → Prop} (hrefl : ∀ s, R s s)
    (htrans : ∀ s t u, R s t → R t u → R s u) {ts : List (Action σ)}
    (hts : ∀ t ∈ ts, ∀ s, R s (t s).state) (h : inOrder ts s = .completed s') {t : Action σ}
    (ht : t ∈ ts) : ∃ u v, R s u ∧ t u = .completed v ∧ R v s' := by
  induction ts generalizing s with
  | nil => cases ht
  | cons x ts ih =>
    obtain ⟨u, hu, hstate, hrest⟩ := completed_of_cons h
    have hlater : ∀ y ∈ ts, ∀ s, R s (y s).state := fun y hy => hts y (List.mem_cons_of_mem x hy)
    have hend := inOrder_rel hrefl htrans hlater u
    rw [hrest, Ended.state_completed] at hend
    cases List.mem_cons.mp ht with
    | inl he => exact ⟨s, u, hrefl s, he ▸ hu, hend⟩
    | inr ht =>
      obtain ⟨y, z, hy, hz, hzend⟩ := ih hlater hrest ht
      exact ⟨y, z, htrans s u y (hstate ▸ hts x (by simp) s) hy, hz, hzend⟩

/-- A host that no task touches is not touched by all of them. -/
theorem inOrder_of_untouched {ts : List (Action (η → σ))} {h : η}
    (hts : ∀ t ∈ ts, ∀ s, (t s).state h = s h) (s : η → σ) : (inOrder ts s).state h = s h :=
  inOrder_rel (R := fun x y : η → σ => y h = x h) (fun _ => rfl) (fun _ _ _ hxy hyz => hyz.trans hxy)
    hts s

end InOrder

section Items
variable {R : σ → σ → Prop} {ts : List (Action σ)} {s s' : σ}

theorem eachItem_rel (hrefl : ∀ s, R s s) (htrans : ∀ s t u, R s t → R t u → R s u)
    (h : ∀ t ∈ ts, ∀ s, R s (t s).state) (s : σ) : R s (eachItem ts s).state := by
  induction ts generalizing s with
  | nil => exact hrefl s
  | cons t ts ih =>
    have ht := h t (by simp) s
    have hts := ih fun x hx => h x (List.mem_cons_of_mem t hx)
    rw [eachItem]
    cases he : t s with
    | completed u =>
      rw [he] at ht
      exact htrans s u _ ht (hts u)
    | failed u =>
      rw [he] at ht
      exact htrans s u _ ht (hts u)
    | aborted u => rwa [he] at ht

/-- Where no item has failed, they are tasks in order. -/
theorem eachItem_completed (h : eachItem ts s = .completed s') : inOrder ts s = .completed s' := by
  induction ts generalizing s with
  | nil => exact h
  | cons t ts ih =>
    rw [eachItem] at h
    rw [inOrder]
    cases he : t s with
    | completed u =>
      rw [he] at h
      exact ih h
    | failed u =>
      rw [he] at h
      cases h
    | aborted u =>
      rw [he] at h
      cases h

theorem eachItem_of_completed {f : Action σ → σ → σ} (h : ∀ t ∈ ts, ∀ s, t s = .completed (f t s))
    (s : σ) : eachItem ts s = .completed (ts.foldl (fun s t => f t s) s) := by
  induction ts generalizing s with
  | nil => rfl
  | cons t ts ih =>
    rw [eachItem, h t (by simp) s]
    exact ih (fun x hx => h x (List.mem_cons_of_mem t hx)) _

end Items

section Hosts
variable [DecidableEq η] {hs : List η} {t : η → Action σ} {s s' : η → σ} {h : η}

theorem onHosts_state (hs : List η) (t : η → Action σ) (s : η → σ) (h : η) :
    (onHosts hs t s).state h = if h ∈ hs then (t h (s h)).state else s h := by
  rw [onHosts]
  split <;> rfl

theorem onHosts_filter_of_not_mem (hh : h ∉ hs) (p : η → Bool) (t : η → Action σ) (s : η → σ) :
    (onHosts (hs.filter p) t s).state h = s h := by
  rw [onHosts_state, if_neg fun hm => hh (List.mem_filter.mp hm).1]

theorem onHosts_completed (he : onHosts hs t s = .completed s') (hh : h ∈ hs) :
    t h (s h) = .completed (s' h) := by
  have hstate : (onHosts hs t s).state h = s' h := by rw [he]; rfl
  rw [onHosts_state, if_pos hh] at hstate
  rw [onHosts] at he
  split at he
  · rename_i hall
    have hcomp := (Ended.isCompleted_iff _).mp (List.all_eq_true.mp hall h hh)
    rwa [hstate] at hcomp
  · cases he

theorem onHosts_of_not_mem (he : onHosts hs t s = .completed s') (hh : h ∉ hs) : s' h = s h := by
  have hstate := onHosts_state hs t s h
  rwa [he, if_neg hh] at hstate

theorem onHosts_of_completed {f : η → σ} (ht : ∀ h ∈ hs, t h (s h) = .completed (f h)) :
    onHosts hs t s = .completed fun h => if h ∈ hs then f h else s h := by
  have hall : (hs.all fun h => (t h (s h)).isCompleted) = true :=
    List.all_eq_true.mpr fun h hh => by rw [ht h hh]; rfl
  rw [onHosts, hall, if_pos rfl]
  congr 1
  funext h
  by_cases hh : h ∈ hs
  · rw [if_pos hh, if_pos hh, ht h hh, Ended.state_completed]
  · rw [if_neg hh, if_neg hh]

theorem onHosts_of_unchanged (ht : ∀ h ∈ hs, t h (s h) = .completed (s h)) :
    onHosts hs t s = .completed s := by
  rw [onHosts_of_completed ht]
  simp only [ite_self]

end Hosts

end Playbook

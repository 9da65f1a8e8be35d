import Kubespray.Lib.Tasks
import Mathlib.Data.List.Nodup
import Mathlib.Data.List.Perm.Subperm
import Mathlib.Logic.Function.Basic
import Mathlib.Logic.Relation

/-! A play that goes through its hosts in batches. The hosts of a batch run their tasks side by side,
in any interleaving, on a state that they share, and on facts of their own. The next batch begins when
the whole batch has finished. -/
namespace Playbook

/-- The tasks of a host, each with what follows where it completes and where it fails. -/
inductive Prog (ρ : Type*) where
  | done
  | stop
  | task (t : Action ρ) (next rescue : Prog ρ)

namespace Prog
variable {ρ : Type*}

/-- What follows a task that ended so. -/
def after (next rescue : Prog ρ) : Ended ρ → Prog ρ
  | .completed _ => next
  | .failed _ => rescue
  | .aborted _ => .stop

/-- The program on a host that is alone. -/
def alone : Prog ρ → Action ρ
  | .done, s => .completed s
  | .stop, s => .failed s
  | .task t next rescue, s => match t s with
    | .completed s' => alone next s'
    | .failed s' => alone rescue s'
    | .aborted s' => .aborted s'

/-- Tasks in order, then `k`; one that fails leads to the rescue. -/
def ofTasks (ts : List (Action ρ)) (k rescue : Prog ρ) : Prog ρ :=
  ts.foldr (fun t k => .task t k rescue) k

theorem alone_ofTasks_stop (ts : List (Action ρ)) (k : Prog ρ) (s : ρ) :
    (ofTasks ts k .stop).alone s = (inOrder ts s).andThen k.alone := by
  induction ts generalizing s with
  | nil => rfl
  | cons t ts ih =>
    rw [ofTasks, List.foldr_cons, alone, inOrder]
    cases t s with
    | completed s' => exact ih s'
    | failed s' => rfl
    | aborted s' => rfl

/-- A block with its rescue section, then `k`. -/
theorem alone_ofTasks_rescue (ts rs : List (Action ρ)) (k : Prog ρ) (s : ρ) :
    (ofTasks ts k (ofTasks rs k .stop)).alone s = (block ts rs s).andThen k.alone := by
  induction ts generalizing s with
  | nil => rfl
  | cons t ts ih =>
    rw [ofTasks, List.foldr_cons, alone, block, inOrder]
    cases t s with
    | completed s' => exact ih s'
    | failed s' => exact alone_ofTasks_stop rs k s'
    | aborted s' => rfl

end Prog

/-- The part of a host's state that the hosts share. -/
structure Sharing (σ ρ : Type*) where
  get : ρ → σ
  put : σ → ρ → ρ
  get_put : ∀ s r, get (put s r) = s
  put_get : ∀ r, put (get r) r = r
  put_put : ∀ s s' r, put s (put s' r) = put s r

structure Config (η σ ρ : Type*) where
  shared : σ
  facts : η → ρ
  todo : η → Prog ρ
  batch : List η
  later : List (List η)

section Steps
variable {η σ ρ : Type*} [DecidableEq η] (sh : Sharing σ ρ) (program : η → Prog ρ)

/-- What a host sees. -/
def Config.view (c : Config η σ ρ) (i : η) : ρ := sh.put c.shared (c.facts i)

/-- The next task of a host, which ended so. -/
def Config.advance (c : Config η σ ρ) (i : η) (next rescue : Prog ρ) (e : Ended ρ) : Config η σ ρ :=
  { c with
    shared := sh.get e.state
    facts := Function.update c.facts i e.state
    todo := Function.update c.todo i (Prog.after next rescue e) }

section Advance
variable (c : Config η σ ρ) {i j : η} (next rescue : Prog ρ) (e : Ended ρ)

@[simp] theorem Config.advance_todo_self :
    (c.advance sh i next rescue e).todo i = Prog.after next rescue e := Function.update_self _ _ _

@[simp] theorem Config.advance_view_self : (c.advance sh i next rescue e).view sh i = e.state := by
  simp [view, advance, sh.put_get]

theorem Config.advance_todo_of_ne (h : j ≠ i) : (c.advance sh i next rescue e).todo j = c.todo j :=
  Function.update_of_ne h _ _

/-- The others see what the task has done to the shared state. -/
theorem Config.advance_view_of_ne (h : j ≠ i) :
    (c.advance sh i next rescue e).view sh j = sh.put (sh.get e.state) (c.view sh j) := by
  simp [view, advance, sh.put_put, h]

end Advance

inductive BatchStep : Config η σ ρ → Config η σ ρ → Prop
  | task {c : Config η σ ρ} {i : η} {t : Action ρ} {next rescue : Prog ρ} (hi : i ∈ c.batch)
      (ht : c.todo i = .task t next rescue) :
      BatchStep c (c.advance sh i next rescue (t (c.view sh i)))
  | next {c : Config η σ ρ} {b : List η} {bs : List (List η)} (hdone : ∀ i ∈ c.batch, c.todo i = .done)
      (hl : c.later = b :: bs) :
      BatchStep c { c with todo := fun i => if i ∈ b then program i else c.todo i, batch := b, later := bs }

def BatchRun : Config η σ ρ → Config η σ ρ → Prop := Relation.ReflTransGen (BatchStep sh program)

/-- The next task of a host of the batch, where it has one. -/
def Config.runTask (c : Config η σ ρ) (i : η) : Config η σ ρ :=
  match c.todo i with
  | .task t next rescue => c.advance sh i next rescue (t (c.view sh i))
  | _ => c

theorem Config.batch_runTask (c : Config η σ ρ) (i : η) : (c.runTask sh i).batch = c.batch := by
  rw [runTask]
  split <;> rfl

/-- The hosts run tasks in the order of a schedule. -/
theorem batchRun_schedule {is : List η} {c : Config η σ ρ} (h : ∀ i ∈ is, i ∈ c.batch) :
    BatchRun sh program c (is.foldl (Config.runTask sh) c) := by
  induction is generalizing c with
  | nil => exact .refl
  | cons i is ih =>
    have hone : BatchRun sh program c (c.runTask sh i) := by
      rw [Config.runTask]
      split
      · rename_i ht
        exact .single (.task (h i (by simp)) ht)
      · exact .refl
    refine hone.trans (ih fun j hj => ?_)
    rw [Config.batch_runTask]
    exact h j (List.mem_cons_of_mem i hj)

def Config.Finished (c : Config η σ ρ) : Prop := c.later = [] ∧ ∀ i ∈ c.batch, c.todo i = .done

end Steps

section Rules
variable {η σ ρ : Type*} [DecidableEq η] {sh : Sharing σ ρ} {program : η → Prog ρ}

/-- The program has `F` in the end, whatever the others do that keeps it. -/
def Secures (sh : Sharing σ ρ) (F : σ → Prop) : Prog ρ → ρ → Prop
  | .done, r => F (sh.get r)
  | .stop, _ => True
  | .task t next rescue, r => ∀ s, (F (sh.get r) → F s) → match t (sh.put s r) with
    | .completed r' => Secures sh F next r'
    | .failed r' => Secures sh F rescue r'
    | .aborted _ => True

/-- Every task of the program keeps `P`. -/
def Prog.Keeps (P : ρ → Prop) : Prog ρ → Prop
  | .done => True
  | .stop => True
  | .task t next rescue => Preserves P t ∧ next.Keeps P ∧ rescue.Keeps P

variable {F : σ → Prop}

theorem secures_stop (r : ρ) : Secures sh F .stop r := trivial

theorem secures_done {r : ρ} (h : F (sh.get r)) : Secures sh F .done r := h

theorem Secures.put {p : Prog ρ} {r : ρ} (h : Secures sh F p r) {s : σ} (hs : F (sh.get r) → F s) :
    Secures sh F p (sh.put s r) := by
  cases p with
  | done =>
    rw [Secures, sh.get_put]
    exact hs h
  | stop => trivial
  | task t next rescue =>
    intro s' hs'
    rw [sh.get_put] at hs'
    rw [sh.put_put]
    exact h s' fun hF => hs' (hs hF)

theorem Secures.after {t : Action ρ} {next rescue : Prog ρ} {r : ρ}
    (h : Secures sh F (.task t next rescue) r) :
    Secures sh F (Prog.after next rescue (t r)) (t r).state := by
  have hstep := h (sh.get r) id
  rw [sh.put_get] at hstep
  cases he : t r with
  | completed r' =>
    rw [he] at hstep
    exact hstep
  | failed r' =>
    rw [he] at hstep
    exact hstep
  | aborted r' => trivial

section Secured
variable {P : ρ → Prop} (hP : ∀ s r, P r → (F (sh.get r) → F s) → P (sh.put s r)) {k rescue : Prog ρ}
include hP

/-- A task that begins where `P` holds, which the others do not break. -/
theorem secures_task {t : Action ρ} (hk : ∀ r r', P r → t r = .completed r' → Secures sh F k r')
    (hrescue : ∀ r r', P r → t r = .failed r' → Secures sh F rescue r') {r : ρ} (hr : P r) :
    Secures sh F (.task t k rescue) r := by
  intro s hs
  have hput := hP s r hr hs
  cases he : t (sh.put s r) with
  | completed r' => exact hk _ r' hput he
  | failed r' => exact hrescue _ r' hput he
  | aborted r' => trivial

/-- Tasks that keep it themselves. -/
theorem secures_ofTasks {ts : List (Action ρ)} (hts : ∀ t ∈ ts, Preserves P t)
    (hk : ∀ r, P r → Secures sh F k r) (hrescue : ∀ r, P r → Secures sh F rescue r) {r : ρ} (hr : P r) :
    Secures sh F (Prog.ofTasks ts k rescue) r := by
  induction ts generalizing r with
  | nil => exact hk r hr
  | cons t ts ih =>
    have hstate : ∀ r r', P r → (t r).state = r' → P r' := fun r r' hr he => he ▸ hts t (by simp) r hr
    refine secures_task hP (fun r r' hr he => ?_) (fun r r' hr he => ?_) hr
    · exact ih (fun u hu => hts u (List.mem_cons_of_mem t hu)) (hstate r r' hr (by rw [he]; rfl))
    · exact hrescue r' (hstate r r' hr (by rw [he]; rfl))

end Secured

theorem keeps_ofTasks {P : ρ → Prop} {ts : List (Action ρ)} (hts : ∀ t ∈ ts, Preserves P t)
    {k rescue : Prog ρ} (hk : k.Keeps P) (hrescue : rescue.Keeps P) :
    (Prog.ofTasks ts k rescue).Keeps P := by
  induction ts with
  | nil => exact hk
  | cons t ts ih => exact ⟨hts t (by simp), ih fun u hu => hts u (List.mem_cons_of_mem t hu), hrescue⟩

theorem Prog.Keeps.after {P : ρ → Prop} {t : Action ρ} {next rescue : Prog ρ}
    (h : (Prog.task t next rescue).Keeps P) (e : Ended ρ) : (Prog.after next rescue e).Keeps P := by
  cases e with
  | completed r => exact h.2.1
  | failed r => exact h.2.2
  | aborted r => trivial

end Rules

section Batches
variable {η σ ρ κ : Type*} [DecidableEq η] {sh : Sharing σ ρ} {program : η → Prog ρ}

/-- Each host answers for one of the things in the shared state, no two for the same, keeps what
the others answer for, and has its own in order again when it has finished. -/
structure Rolling (sh : Sharing σ ρ) (program : η → Prog ρ) (F : κ → σ → Prop) (own : η → κ) : Prop where
  own_injective : Function.Injective own
  keeps : ∀ i n, n ≠ own i → (program i).Keeps fun r => F n (sh.get r)
  secures : ∀ i r, F (own i) (sh.get r) → Secures sh (F (own i)) (program i) r

/-- A thing is in order unless a host of the batch answers for it, which is then still to see to it. -/
structure Attended (sh : Sharing σ ρ) (F : κ → σ → Prop) (own : η → κ) (c : Config η σ ρ) (n : κ) :
    Prop where
  keeps : ∀ i ∈ c.batch, n ≠ own i → (c.todo i).Keeps fun r => F n (sh.get r)
  owned : ∀ i ∈ c.batch, n = own i → Secures sh (F n) (c.todo i) (c.view sh i)
  others : (∀ i ∈ c.batch, n ≠ own i) → F n c.shared

variable {F : κ → σ → Prop} {own : η → κ}

omit [DecidableEq η] in
theorem Attended.of_done {c : Config η σ ρ} {n : κ} (h : Attended sh F own c n)
    (hdone : ∀ i ∈ c.batch, c.todo i = .done) : F n c.shared := by
  by_cases hown : ∀ i ∈ c.batch, n ≠ own i
  · exact h.others hown
  · simp only [not_forall, not_not] at hown
    obtain ⟨i, hi, hn⟩ := hown
    have hs := h.owned i hi hn
    rwa [hdone i hi, Secures, Config.view, sh.get_put] at hs

theorem Attended.task {c : Config η σ ρ} {n : κ} (h : Attended sh F own c n)
    (hinj : Function.Injective own) {i : η} (hi : i ∈ c.batch) {t : Action ρ} {next rescue : Prog ρ}
    (ht : c.todo i = .task t next rescue) :
    Attended sh F own (c.advance sh i next rescue (t (c.view sh i))) n := by
  -- What another host answers for stays in order.
  have hframe : n ≠ own i → F n c.shared → F n (sh.get (t (c.view sh i)).state) := by
    intro hn hF
    have hkeeps := h.keeps i hi hn
    rw [ht] at hkeeps
    refine hkeeps.1 _ ?_
    beta_reduce
    rwa [Config.view, sh.get_put]
  refine ⟨fun j hj hn => ?_, fun j hj hn => ?_, fun hn => hframe (hn i hi) (h.others hn)⟩
  · by_cases hji : j = i
    · subst hji
      have hkeeps := h.keeps j hi hn
      rw [ht] at hkeeps
      rw [Config.advance_todo_self]
      exact hkeeps.after _
    · rw [Config.advance_todo_of_ne _ _ _ _ _ hji]
      exact h.keeps j hj hn
  · by_cases hji : j = i
    · subst hji
      have hsec := h.owned j hi hn
      rw [ht] at hsec
      rw [Config.advance_todo_self, Config.advance_view_self]
      exact hsec.after
    · rw [Config.advance_todo_of_ne _ _ _ _ _ hji, Config.advance_view_of_ne _ _ _ _ _ hji]
      refine (h.owned j hj hn).put ?_
      rw [Config.view, sh.get_put]
      exact hframe fun he => hji (hinj (hn.symm.trans he))

theorem Attended.step (hroll : Rolling sh program F own) {c c' : Config η σ ρ} {n : κ}
    (h : Attended sh F own c n) (hs : BatchStep sh program c c') : Attended sh F own c' n := by
  cases hs with
  | task hi ht => exact h.task hroll.own_injective hi ht
  | @next b bs hdone hl =>
    have hF := h.of_done hdone
    refine ⟨fun i hi hn => ?_, fun i hi hn => ?_, fun _ => hF⟩
    · simp only [if_pos hi]
      exact hroll.keeps i n hn
    · simp only [if_pos hi]
      subst hn
      refine hroll.secures i _ ?_
      rwa [Config.view, sh.get_put]

/-- Before the first batch. -/
def Config.start (s : σ) (facts : η → ρ) (batches : List (List η)) : Config η σ ρ :=
  ⟨s, facts, fun _ => .done, [], batches⟩

theorem attended_of_batchRun (hroll : Rolling sh program F own) {s : σ} {facts : η → ρ}
    {batches : List (List η)} {c : Config η σ ρ}
    (hrun : BatchRun sh program (.start s facts batches) c) {n : κ} (hn : F n s) :
    Attended sh F own c n := by
  induction hrun with
  | refl => exact ⟨nofun, nofun, fun _ => hn⟩
  | tail _ hs ih => exact ih.step hroll hs

/-- In every state of a run, what is not in order any more is in the hands of the batch. -/
theorem mem_batch_of_batchRun (hroll : Rolling sh program F own) {s : σ} {facts : η → ρ}
    {batches : List (List η)} {c : Config η σ ρ}
    (hrun : BatchRun sh program (.start s facts batches) c) {n : κ} (hn : F n s)
    (hnot : ¬ F n c.shared) : n ∈ c.batch.map own := by
  by_contra hmem
  refine hnot ((attended_of_batchRun hroll hrun hn).others fun i hi he => hmem ?_)
  exact he ▸ List.mem_map_of_mem hi

/-- The batch of a run is one of those it was given. -/
theorem batch_mem_of_batchRun {s : σ} {facts : η → ρ} {batches : List (List η)} {c : Config η σ ρ}
    (hrun : BatchRun sh program (.start s facts batches) c) :
    (c.batch = [] ∨ c.batch ∈ batches) ∧ c.later ⊆ batches := by
  induction hrun with
  | refl => exact ⟨.inl rfl, fun _ h => h⟩
  | tail _ hs ih =>
    cases hs with
    | task => exact ih
    | next _ hl =>
      rw [hl] at ih
      obtain ⟨hb, hbs⟩ := List.cons_subset.mp ih.2
      exact ⟨.inr hb, hbs⟩

/-- Never are more things out of order than there are hosts in a batch. -/
theorem length_le_of_batchRun (hroll : Rolling sh program F own) {s : σ} {facts : η → ρ}
    {batches : List (List η)} {c : Config η σ ρ}
    (hrun : BatchRun sh program (.start s facts batches) c) {serial : ℕ}
    (hserial : ∀ b ∈ batches, b.length ≤ serial) {ns : List κ} (hnd : ns.Nodup)
    (hns : ∀ n ∈ ns, F n s ∧ ¬ F n c.shared) : ns.length ≤ serial := by
  have hsub : ns ⊆ c.batch.map own := fun n hn =>
    mem_batch_of_batchRun hroll hrun (hns n hn).1 (hns n hn).2
  have hlen : ns.length ≤ c.batch.length := by
    rw [← List.length_map (f := own)]
    exact (List.subperm_of_subset hnd hsub).length_le
  cases (batch_mem_of_batchRun hrun).1 with
  | inl hnil =>
    rw [hnil] at hlen
    exact Nat.le_trans hlen (Nat.zero_le serial)
  | inr hmem => exact Nat.le_trans hlen (hserial _ hmem)

end Batches

end Playbook

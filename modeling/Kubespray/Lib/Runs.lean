import Mathlib.Data.List.Nodup

/-! Runs of a deterministic step that may raise, and how a property of single
steps is carried along a whole run. -/
namespace Runs
variable {σ ι ε : Type*}

/-- `R` holds of every completed step of the run over the inputs from `s`.
A step that raises ends the run. -/
def Along (step : σ → ι → Except ε σ) (R : σ → ι → σ → Prop) : σ → List ι → Prop
  | _, [] => True
  | s, i :: is => match step s i with
    | .error _ => True
    | .ok s' => R s i s' ∧ Along step R s' is

variable {step : σ → ι → Except ε σ} {R C : σ → ι → σ → Prop}

theorem along_cons_error {s : σ} {i : ι} {is : List ι} {e : ε} (h : step s i = .error e) :
    Along step R s (i :: is) ↔ True := by
  simp [Along, h]

theorem along_cons_ok {s s' : σ} {i : ι} {is : List ι} (h : step s i = .ok s') :
    Along step R s (i :: is) ↔ R s i s' ∧ Along step R s' is := by
  simp [Along, h]

instance Along.decidable [∀ s i s', Decidable (R s i s')] : ∀ s is, Decidable (Along step R s is)
  | _, [] => .isTrue trivial
  | s, i :: is => match h : step s i with
    | .error _ => decidable_of_iff True (along_cons_error h).symm
    | .ok s' =>
      have := Along.decidable s' is
      decidable_of_iff (R s i s' ∧ Along step R s' is) (along_cons_ok h).symm

/-- The invariant rule: what one step keeps holds in every state of a run. -/
theorem along_of_invariant {I : σ → Prop} (hstep : ∀ s i s', I s → step s i = .ok s' → I s')
    {s : σ} (hs : I s) (is : List ι) : Along step (fun _ _ s' => I s') s is := by
  induction is generalizing s with
  | nil => trivial
  | cons i is ih =>
    cases h : step s i with
    | error e => simp [Along, h]
    | ok s' =>
      have hI := hstep s i s' hs h
      exact (along_cons_ok h).mpr ⟨hI, ih hI⟩

/-- Where a property of steps is equivalent to a condition on them, given what
holds along the run, and is what carries the invariant, both hold of the same runs. -/
theorem along_iff_along_of {I : σ → Prop} {H : σ → ι → σ → Prop}
    (hiff : ∀ s i s', I s → step s i = .ok s' → H s i s' → (R s i s' ↔ C s i s'))
    (hstep : ∀ s i s', I s → step s i = .ok s' → R s i s' → I s')
    {s : σ} (hs : I s) (is : List ι) (hH : Along step H s is) :
    Along step R s is ↔ Along step C s is := by
  induction is generalizing s with
  | nil => exact Iff.rfl
  | cons i is ih =>
    cases h : step s i with
    | error e => simp [Along, h]
    | ok s' =>
      obtain ⟨hh, ht⟩ := (along_cons_ok h).mp hH
      rw [along_cons_ok h, along_cons_ok h, ← hiff s i s' hs h hh]
      exact and_congr_right fun hR => ih (hstep s i s' hs h hR) ht

theorem along_iff_along {I : σ → Prop}
    (hiff : ∀ s i s', I s → step s i = .ok s' → (R s i s' ↔ C s i s'))
    (hstep : ∀ s i s', I s → step s i = .ok s' → R s i s' → I s')
    {s : σ} (hs : I s) (is : List ι) : Along step R s is ↔ Along step C s is := by
  have hT : Along step (fun _ _ _ => True) s is :=
    along_of_invariant (I := fun _ => True) (fun _ _ _ _ _ => trivial) trivial is
  exact along_iff_along_of (fun s i s' hI h _ => hiff s i s' hI h) hstep hs is hT

/-- Every step of the run completes, and `R` holds of it. -/
def Each (step : σ → ι → Except ε σ) (R : σ → ι → σ → Prop) : σ → List ι → Prop
  | _, [] => True
  | s, i :: is => ∃ s', step s i = .ok s' ∧ R s i s' ∧ Each step R s' is

theorem each_cons_ok {s s' : σ} {i : ι} {is : List ι} (h : step s i = .ok s') :
    Each step R s (i :: is) ↔ R s i s' ∧ Each step R s' is := by
  rw [Each]
  constructor
  · intro hex
    obtain ⟨t, ht, hR⟩ := hex
    obtain rfl := Except.ok.inj (h.symm.trans ht)
    exact hR
  · exact fun hR => ⟨s', h, hR⟩

/-- The states that some run from `s` ends in. -/
inductive Reachable (step : σ → ι → Except ε σ) (s : σ) : σ → Prop
  | start : Reachable step s s
  | step {t t' : σ} {i : ι} : Reachable step s t → step t i = .ok t' → Reachable step s t'

theorem Reachable.invariant {I : σ → Prop} (hstep : ∀ s i s', I s → step s i = .ok s' → I s')
    {s t : σ} (hs : I s) (h : Reachable step s t) : I t := by
  induction h with
  | start => exact hs
  | step _ hi ih => exact hstep _ _ _ ih hi

theorem bind_eq_ok.{u, v} {ε : Type u} {α β : Type v} {x : Except ε α} {f : α → Except ε β} {b : β}
    (h : (x >>= f) = .ok b) : ∃ a, x = .ok a ∧ f a = .ok b := by
  cases x with
  | error e => cases h
  | ok a => exact ⟨a, rfl, h⟩

section MapM
universe u v
variable {ε : Type u} {α : Type*} {β : Type v} {f : α → Except ε β}

theorem mapM_eq_ok_iff {good : α → Prop} {g : α → β} (hf : ∀ a b, f a = .ok b ↔ good a ∧ b = g a)
    (l : List α) (bs : List β) : l.mapM f = .ok bs ↔ (∀ a ∈ l, good a) ∧ bs = l.map g := by
  induction l generalizing bs with
  | nil => simp [pure, Except.pure, eq_comm]
  | cons a l ih =>
    rw [List.mapM_cons, List.forall_mem_cons, List.map_cons]
    constructor
    · intro h
      obtain ⟨b, hb, hrest⟩ := bind_eq_ok h
      obtain ⟨cs, hcs, hout⟩ := bind_eq_ok hrest
      obtain ⟨ha, rfl⟩ := (hf a b).mp hb
      obtain ⟨hl, rfl⟩ := (ih cs).mp hcs
      exact ⟨⟨ha, hl⟩, (Except.ok.inj hout).symm⟩
    · rintro ⟨⟨ha, hl⟩, rfl⟩
      rw [(hf a (g a)).mpr ⟨ha, rfl⟩, (ih (l.map g)).mpr ⟨hl, rfl⟩]
      rfl

/-- It completes where it completes on every element. -/
theorem exists_mapM_iff (l : List α) : (∃ bs, l.mapM f = .ok bs) ↔ ∀ a ∈ l, ∃ b, f a = .ok b := by
  induction l with
  | nil => exact iff_of_true ⟨[], rfl⟩ nofun
  | cons a l ih =>
    rw [List.forall_mem_cons, ← ih, List.mapM_cons]
    constructor
    · rintro ⟨bs, h⟩
      obtain ⟨b, hb, hrest⟩ := bind_eq_ok h
      obtain ⟨bs', hbs, -⟩ := bind_eq_ok hrest
      exact ⟨⟨b, hb⟩, bs', hbs⟩
    · rintro ⟨⟨b, hb⟩, bs, hbs⟩
      refine ⟨b :: bs, ?_⟩
      rw [hb, hbs]
      rfl

end MapM

/-- A loop each completed round of which keeps to a preorder on the states keeps to it. -/
theorem foldlM_rel {τ : Type*} {P : τ → τ → Prop} (hrefl : ∀ s, P s s)
    (htrans : ∀ s t u, P s t → P t u → P s u) {f : τ → ι → Except ε τ} (is : List ι)
    (hf : ∀ i ∈ is, ∀ s s', f s i = .ok s' → P s s') {s s' : τ} (h : is.foldlM f s = .ok s') :
    P s s' := by
  induction is generalizing s with
  | nil =>
    obtain rfl : s = s' := Except.ok.inj h
    exact hrefl s
  | cons i is ih =>
    rw [List.foldlM_cons] at h
    obtain ⟨t, ht, hrest⟩ := bind_eq_ok h
    exact htrans s t s' (hf i (by simp) s t ht)
      (ih (fun x hx => hf x (List.mem_cons_of_mem i hx)) hrest)

/-- A loop whose rounds complete on the good inputs, with `g` as what they do. -/
theorem foldlM_eq_ok_iff {τ : Type*} {I : τ → Prop} {f : τ → ι → Except ε τ} {good : ι → Prop}
    {g : τ → ι → τ} (hI : ∀ s i, I s → I (g s i))
    (hf : ∀ s i s', I s → (f s i = .ok s' ↔ good i ∧ s' = g s i)) (is : List ι) {s t : τ}
    (hs : I s) : is.foldlM f s = .ok t ↔ (∀ i ∈ is, good i) ∧ t = is.foldl g s := by
  induction is generalizing s with
  | nil => simp [pure, Except.pure, eq_comm]
  | cons i is ih =>
    rw [List.foldlM_cons, List.foldl_cons, List.forall_mem_cons]
    constructor
    · intro h
      obtain ⟨u, hu, hrest⟩ := bind_eq_ok h
      obtain ⟨hi, rfl⟩ := (hf s i u hs).mp hu
      obtain ⟨his, he⟩ := (ih (hI s i hs)).mp hrest
      exact ⟨⟨hi, his⟩, he⟩
    · intro h
      obtain ⟨⟨hi, his⟩, he⟩ := h
      have hround : f s i = .ok (g s i) := (hf s i _ hs).mpr ⟨hi, rfl⟩
      rw [hround]
      exact (ih (hI s i hs)).mpr ⟨his, he⟩

/-- A loop over distinct keys, of which the round with the key `x` alone does something. -/
theorem foldl_of_key {τ κ : Type*} [DecidableEq κ] (key : ι → κ) (f : ι → τ → τ) (x : κ)
    {is : List ι} (hnd : (is.map key).Nodup) (s : τ) :
    is.foldl (fun s i => if key i = x then f i s else s) s =
      match is.find? (fun i => key i = x) with
      | some i => f i s
      | none => s := by
  induction is generalizing s with
  | nil => rfl
  | cons i is ih =>
    obtain ⟨hi, hnd⟩ := List.nodup_cons.mp hnd
    rw [List.foldl_cons, ih hnd, List.find?_cons]
    by_cases hx : key i = x
    · have hnone : is.find? (fun j => key j = x) = none := by
        refine List.find?_eq_none.mpr fun j hj he => hi ?_
        rw [hx, ← of_decide_eq_true he]
        exact List.mem_map_of_mem hj
      rw [if_pos hx, hnone, decide_eq_true hx]
    · rw [if_neg hx, decide_eq_false hx]

/-- None of the inputs, in the state it comes to, writes. -/
def Unwritten {ν τ : Type*} (f : τ → ι → τ) (writes : τ → ι → ν → Prop) : τ → List ι → Prop
  | _, [] => True
  | s, i :: is => (∀ v, ¬ writes s i v) ∧ Unwritten f writes (f s i) is

/-- What is read after a loop stood there from the start, or was written last. -/
theorem foldl_eq_some_iff {ν τ : Type*} {f : τ → ι → τ} {writes : τ → ι → ν → Prop}
    (get : τ → Option ν) {v : ν} (hwrite : ∀ s i w, writes s i w → get (f s i) = some w)
    (is : List ι) (hkeep : ∀ i ∈ is, ∀ s, (∀ w, ¬ writes s i w) →
      (get (f s i) = some v ↔ get s = some v)) (s : τ) :
    get (is.foldl f s) = some v ↔ (get s = some v ∧ Unwritten f writes s is) ∨
      ∃ pre i post, is = pre ++ i :: post ∧ writes (pre.foldl f s) i v ∧
        Unwritten f writes (f (pre.foldl f s) i) post := by
  induction is generalizing s with
  | nil => simp [Unwritten]
  | cons i is ih =>
    rw [List.foldl_cons, ih fun j hj => hkeep j (List.mem_cons_of_mem i hj)]
    constructor
    · intro h
      cases h with
      | inl hstart =>
        by_cases hw : ∃ w, writes s i w
        · obtain ⟨w, hw⟩ := hw
          have hv : w = v := Option.some.inj ((hwrite s i w hw).symm.trans hstart.1)
          exact .inr ⟨[], i, is, rfl, hv ▸ hw, hstart.2⟩
        · have hno : ∀ w, ¬ writes s i w := fun w h => hw ⟨w, h⟩
          exact .inl ⟨(hkeep i (by simp) s hno).mp hstart.1, hno, hstart.2⟩
      | inr hlater =>
        obtain ⟨pre, j, post, his, hj, hpost⟩ := hlater
        exact .inr ⟨i :: pre, j, post, by rw [his, List.cons_append], hj, hpost⟩
    · intro h
      cases h with
      | inl hstart => exact .inl ⟨(hkeep i (by simp) s hstart.2.1).mpr hstart.1, hstart.2.2⟩
      | inr hlater =>
        obtain ⟨pre, j, post, his, hj, hpost⟩ := hlater
        cases pre with
        | nil =>
          obtain ⟨rfl, rfl⟩ := List.cons.inj his
          exact .inl ⟨hwrite s i v hj, hpost⟩
        | cons k pre =>
          obtain ⟨rfl, rfl⟩ := List.cons.inj his
          exact .inr ⟨pre, j, post, rfl, hj, hpost⟩

end Runs

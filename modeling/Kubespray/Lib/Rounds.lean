import Mathlib.Init

/-! Loops each round of which ends the loop or asks for another one. -/
namespace Rounds
variable {σ ρ : Type*}

inductive Round (σ ρ : Type*) where
  | again (s : σ)
  | ends (r : ρ)

/-- The result and the number of rounds; none where `fuel` rounds do not end the loop. -/
def run (round : Nat → σ → Round σ ρ) : (fuel i : Nat) → σ → Option (ρ × Nat)
  | 0, _, _ => none
  | fuel + 1, i, s =>
    match round i s with
    | .again s' => run round fuel (i + 1) s'
    | .ends r => some (r, i + 1)

/-- The state that round `i` starts in, where the loop comes so far. -/
def before (round : Nat → σ → Round σ ρ) (s : σ) : Nat → Option σ
  | 0 => some s
  | i + 1 => (before round s i).bind fun t =>
    match round i t with
    | .again t' => some t'
    | .ends _ => none

variable {round : Nat → σ → Round σ ρ} {s t t' : σ} {i j : Nat}

theorem before_succ_of_again (hi : before round s i = some t) (h : round i t = .again t') :
    before round s (i + 1) = some t' := by
  rw [before, hi, Option.bind_some, h]

theorem before_succ_of_ends {r : ρ} (hi : before round s i = some t) (h : round i t = .ends r) :
    before round s (i + 1) = none := by
  rw [before, hi, Option.bind_some, h]

theorem before_succ_eq_some (h : before round s (i + 1) = some t') :
    ∃ t, before round s i = some t ∧ round i t = .again t' := by
  rw [before] at h
  obtain ⟨t, ht, hround⟩ := Option.bind_eq_some_iff.mp h
  cases hr : round i t with
  | again u =>
    rw [hr] at hround
    exact ⟨t, ht, hr.trans (congrArg Round.again (Option.some.inj hround))⟩
  | ends r =>
    rw [hr] at hround
    cases hround

theorem before_eq_none_of_le (hij : i ≤ j) (h : before round s i = none) :
    before round s j = none := by
  induction hij with
  | refl => exact h
  | step _ ih => rw [before, ih, Option.bind_none]

/-- The invariant rule: what each round that asks for another one keeps holds before every round. -/
theorem before_invariant {P : Nat → σ → Prop} (hs : P 0 s)
    (hstep : ∀ i t t', P i t → round i t = .again t' → P (i + 1) t') :
    ∀ i t, before round s i = some t → P i t := by
  intro i
  induction i with
  | zero =>
    intro t ht
    exact Option.some.inj ht ▸ hs
  | succ i ih =>
    intro t' ht'
    obtain ⟨t, ht, hround⟩ := before_succ_eq_some ht'
    exact hstep i t t' (ih t ht) hround

theorem run_from_eq_some_iff (fuel : Nat) (r : ρ) (k : Nat) (hi : before round s i = some t) :
    run round fuel i t = some (r, k) ↔ ∃ j u, i ≤ j ∧ j < i + fuel ∧ k = j + 1 ∧
      before round s j = some u ∧ round j u = .ends r := by
  induction fuel generalizing i t with
  | zero =>
    constructor
    · exact fun h => nomatch h
    · rintro ⟨j, u, hij, hlt, -⟩
      omega
  | succ fuel ih =>
    rw [run]
    cases hround : round i t with
    | again t' =>
      refine (ih (before_succ_of_again hi hround)).trans ?_
      constructor
      · rintro ⟨j, u, hij, hlt, hrest⟩
        exact ⟨j, u, by omega, by omega, hrest⟩
      · rintro ⟨j, u, hij, hlt, hk, hu, hends⟩
        have hne : i ≠ j := by
          rintro rfl
          obtain rfl := Option.some.inj (hi.symm.trans hu)
          cases hround.symm.trans hends
        exact ⟨j, u, by omega, by omega, hk, hu, hends⟩
    | ends r' =>
      constructor
      · intro h
        obtain ⟨rfl, rfl⟩ := Prod.mk.inj (Option.some.inj h)
        exact ⟨i, t, Nat.le_refl i, by omega, rfl, hi, hround⟩
      · rintro ⟨j, u, hij, hlt, rfl, hu, hends⟩
        cases Nat.eq_or_lt_of_le hij with
        | inl heq =>
          subst heq
          obtain rfl := Option.some.inj (hi.symm.trans hu)
          obtain rfl := Round.ends.inj (hround.symm.trans hends)
          rfl
        | inr hlt' =>
          have hnone := before_eq_none_of_le hlt' (before_succ_of_ends hi hround)
          cases hnone.symm.trans hu

/-- The loop ends with the first round that ends it. -/
theorem run_eq_some_iff (fuel : Nat) (s : σ) (r : ρ) (k : Nat) :
    run round fuel 0 s = some (r, k) ↔ ∃ i t, i < fuel ∧ k = i + 1 ∧
      before round s i = some t ∧ round i t = .ends r := by
  rw [run_from_eq_some_iff fuel r k (s := s) rfl]
  simp only [Nat.zero_le, true_and, Nat.zero_add]

/-- Without an end every round is reached. -/
theorem ends_or_reaches (round : Nat → σ → Round σ ρ) (s : σ) :
    (∃ fuel, (run round fuel 0 s).isSome) ∨ ∀ i, ∃ t, before round s i = some t := by
  by_cases hend : ∃ i t r, before round s i = some t ∧ round i t = .ends r
  · obtain ⟨i, t, r, hi, hends⟩ := hend
    refine .inl ⟨i + 1, Option.isSome_iff_exists.mpr ⟨(r, i + 1), ?_⟩⟩
    exact (run_eq_some_iff _ _ _ _).mpr ⟨i, t, Nat.lt_succ_self i, rfl, hi, hends⟩
  · refine .inr fun i => ?_
    induction i with
    | zero => exact ⟨s, rfl⟩
    | succ i ih =>
      obtain ⟨t, ht⟩ := ih
      cases hround : round i t with
      | again t' => exact ⟨t', before_succ_of_again ht hround⟩
      | ends r => exact absurd ⟨i, t, r, ht, hround⟩ hend

end Rounds

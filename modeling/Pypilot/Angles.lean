import Pypilot.Steering

/-!
# Angles

The two normal forms of an angle, over exact rationals: `resolv` gives the one in [-180, 180), and
`compass_normalize` the one in [0, 360). They differ by full circles from the angle and from each other.
-/

namespace Pypilot

/-- The loops of `resolv` end, with the result `r`. -/
def Resolves (angle r : Real) : Prop := ∃ fuel, resolv fuel angle = some r

theorem resolves_iff (a : ℚ) (r : Real) : Resolves (.fin a) r ↔ r = .fin (wrap a) := by
  constructor
  · rintro ⟨fuel, h⟩
    exact resolv_fin h
  · rintro rfl
    obtain ⟨fuel, hsome⟩ := (resolv_returns_iff (.fin a)).mpr (ExtRat.not_isInf_fin a)
    obtain ⟨r, hr⟩ := Option.isSome_iff_exists.mp hsome
    exact ⟨fuel, by rw [hr, resolv_fin hr]⟩

/-- The angle the other way round. -/
theorem wrap_neg {q : ℚ} (h : wrap q ≠ -180) : wrap (-q) = -wrap q := by
  obtain ⟨hlow, hhigh⟩ := wrap_mem q
  obtain ⟨-, -, k, hk⟩ := eq_wrap_iff.mpr (rfl : wrap q = wrap q)
  refine (eq_wrap_iff.mp ⟨by linarith, ?_, -k, ?_⟩).symm
  · have hlt := lt_of_le_of_ne hlow h.symm
    linarith
  · push_cast
    linarith

/-- The rest after full circles, turned by one more when it is negative. -/
theorem compassNormalize_fin (a : ℚ) :
    ∃ n, compassNormalize (.fin a) = .fin n ∧ 0 ≤ n ∧ n < 360 ∧ ∃ k : ℤ, a = n + 360 * k := by
  obtain ⟨hlow, hhigh⟩ := ExtRat.rest_mem a (show (0 : ℚ) < 360 by norm_num)
  have hrest : ExtRat.fmod (.fin a) 360 = .fin (a - 360 * ExtRat.trunc (a / 360)) :=
    ExtRat.fmod_fin a (by norm_num)
  unfold compassNormalize
  dsimp only
  rw [hrest]
  by_cases hneg : a - 360 * ExtRat.trunc (a / 360) < 0
  · refine ⟨a - 360 * ExtRat.trunc (a / 360) + 360, ?_, by linarith, by linarith,
      ExtRat.trunc (a / 360) - 1, ?_⟩
    · exact if_pos (ExtRat.fin_lt_fin.mpr hneg)
    · push_cast
      ring
  · refine ⟨a - 360 * ExtRat.trunc (a / 360), ?_, not_lt.mp hneg, hhigh, ExtRat.trunc (a / 360), ?_⟩
    · exact if_neg (mt ExtRat.fin_lt_fin.mp hneg)
    · ring

/-- **Angles.** On every rational angle the loops of `resolv` end, with the only number in [-180, 180) that
differs from it by full circles; on that number they end with the number itself. The heading error changes
its sign with the order of command and heading, unless it is -180. `compass_normalize` gives a number in
[0, 360) on which `resolv` ends with the same result. -/
theorem resolv_wraps :
    (∀ a : ℚ, ∃ e : ℚ, (∀ r, Resolves (.fin a) r ↔ r = .fin e) ∧
        (∀ x : ℚ, (-180 ≤ x ∧ x < 180 ∧ ∃ k : ℤ, a = x + 360 * k) ↔ x = e) ∧
        Resolves (.fin e) (.fin e)) ∧
      (∀ c h e : ℚ, (∃ fuel, headingError fuel (.fin c) (.fin h) = some (.fin e)) → e ≠ -180 →
        ∃ fuel, headingError fuel (.fin h) (.fin c) = some (.fin (-e))) ∧
      ∀ a : ℚ, ∃ n : ℚ, compassNormalize (.fin a) = .fin n ∧ 0 ≤ n ∧ n < 360 ∧
        ∀ r, Resolves (.fin n) r ↔ Resolves (.fin a) r := by
  refine ⟨fun a => ?_, fun c h e => ?_, fun a => ?_⟩
  · refine ⟨wrap a, resolves_iff a, fun x => eq_wrap_iff, (resolves_iff _ _).mpr ?_⟩
    obtain ⟨hlow, hhigh⟩ := wrap_mem a
    rw [wrap_eq_self hlow hhigh]
  · unfold headingError
    rw [ExtRat.fin_sub_fin, ExtRat.fin_sub_fin]
    intro herror hne
    obtain rfl := ExtRat.fin.inj ((resolves_iff (c - h) _).mp herror)
    refine (resolves_iff (h - c) _).mpr ?_
    rw [← wrap_neg hne, neg_sub]
  · obtain ⟨n, hn, hlow, hhigh, k, rfl⟩ := compassNormalize_fin a
    refine ⟨n, hn, hlow, hhigh, fun r => ?_⟩
    rw [resolves_iff, resolves_iff, wrap_add]

/-- Across north: 20 degrees to starboard one way are 20 to port the other. -/
theorem resolv_wraps_north :
    ∃ fuel, headingError fuel (.fin 350) (.fin 10) = some (.fin (-20)) := by
  have herror : headingError 2 (.fin 10) (.fin 350) = some (.fin 20) := by decide +kernel
  exact resolv_wraps.2.1 10 350 20 ⟨2, herror⟩ (by norm_num)

end Pypilot

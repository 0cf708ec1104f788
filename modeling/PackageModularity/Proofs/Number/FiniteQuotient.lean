import Mathlib.Tactic.Positivity
import PackageModularity.Number.Binary64

/-! The quotient of two integers of fewer than 128 bits is a finite number. -/
namespace PackageModularity.Binary64

theorem le_exponentOf (num den : Nat) : (num.log2 : Int) - den.log2 - 53 ≤ exponentOf num den := by
  simp only [exponentOf]
  split <;> omega

theorem exponentOf_le (num den : Nat) :
    exponentOf num den ≤ max lowestExponent ((num.log2 : Int) - den.log2 - 52) := by
  simp only [exponentOf]
  split <;> omega

theorem ofRatio_zero (negative : Bool) (den : Nat) : ofRatio negative 0 den = zero negative := by
  unfold ofRatio
  exact if_pos rfl

theorem ofRatio_eq_finite (negative : Bool) {num den : Nat} (hn : num ≠ 0)
    (h : exponentOf num den < highestExponent) :
    ∃ m e, ofRatio negative num den = .finite negative m e ∧
      ((e = exponentOf num den ∧ m = nearest (scaled num den e).1 (scaled num den e).2) ∨
        (e = exponentOf num den + 1 ∧ m = 2 ^ 52)) := by
  unfold ofRatio
  rw [if_neg hn]
  extract_lets e
  change e < highestExponent at h
  generalize hr : scaled num den e = r
  obtain ⟨n, d⟩ := r
  split
  rename_i n' d' hnd
  obtain ⟨rfl, rfl⟩ := Prod.mk.inj hnd
  extract_lets m
  by_cases hm : m = Nat.pow 2 53
  · rw [if_pos hm]
    split
    rename_i m' e' hcarry
    obtain ⟨rfl, rfl⟩ := Prod.mk.inj hcarry
    rw [if_neg (Int.not_lt.2 h)]
    exact ⟨_, _, rfl, Or.inr ⟨rfl, rfl⟩⟩
  · rw [if_neg hm]
    split
    rename_i m' e' hcarry
    obtain ⟨rfl, rfl⟩ := Prod.mk.inj hcarry
    rw [if_neg (Int.not_lt.2 (Int.le_of_lt h))]
    exact ⟨_, _, rfl, Or.inl ⟨rfl, by rw [hr]⟩⟩

theorem isFinite_ofRatio (negative : Bool) {num den : Nat} (h : num.log2 ≤ 1000) :
    (ofRatio negative num den).isFinite = true := by
  by_cases hn : num = 0
  · rw [hn, ofRatio_zero]
    rfl
  · have he := exponentOf_le num den
    simp only [lowestExponent] at he
    have hlt : exponentOf num den < highestExponent := by
      simp only [highestExponent]
      omega
    obtain ⟨m, e, hf, -⟩ := ofRatio_eq_finite negative hn hlt
    rw [hf]
    rfl

theorem div_le_nearest (num den : Nat) : num / den ≤ nearest num den := by
  simp only [nearest]
  split
  · exact Nat.le_refl _
  · split
    · omega
    · split <;> omega

theorem nearest_le (num den : Nat) : nearest num den ≤ num / den + 1 := by
  simp only [nearest]
  split
  · omega
  · split
    · omega
    · split <;> omega

theorem scaled_bounds {num : Nat} (hn : num ≠ 0) :
    1 ≤ (scaled num 1 (exponentOf num 1)).1 / (scaled num 1 (exponentOf num 1)).2 ∧
    (scaled num 1 (exponentOf num 1)).1 ≤ num * 2 ^ 53 := by
  have hlow := le_exponentOf num 1
  have hhigh := exponentOf_le num 1
  have hlog : Nat.log2 1 = 0 := rfl
  simp only [hlog, lowestExponent] at hlow hhigh
  generalize exponentOf num 1 = e at hlow hhigh
  simp only [scaled, Nat.one_mul, Nat.pow_eq]
  split
  · have hpow : 2 ^ e.toNat ≤ num :=
      (Nat.pow_le_pow_right (by decide) (by omega)).trans (Nat.log2_self_le hn)
    exact ⟨(Nat.one_le_div_iff (by positivity)).2 hpow, Nat.le_mul_of_pos_right _ (by decide)⟩
  · rw [Nat.div_one]
    exact ⟨Nat.mul_pos (Nat.pos_of_ne_zero hn) (by positivity),
      Nat.mul_le_mul_left _ (Nat.pow_le_pow_right (by decide) (by omega))⟩

theorem ofInt_eq_finite {x : Int} (hx : x ≠ 0) (hbound : x.natAbs < 2 ^ 128) :
    ∃ s m e, ofInt x = .finite s m e ∧ m ≠ 0 ∧ m ≤ 2 ^ 182 ∧ -53 ≤ e ∧ e ≤ 128 := by
  have hn : x.natAbs ≠ 0 := Int.natAbs_ne_zero.2 hx
  have hlog : x.natAbs.log2 < 128 := (Nat.log2_lt hn).2 hbound
  have hlow := le_exponentOf x.natAbs 1
  have hhigh := exponentOf_le x.natAbs 1
  have hone : Nat.log2 1 = 0 := rfl
  simp only [hone, lowestExponent] at hlow hhigh
  have hlt : exponentOf x.natAbs 1 < highestExponent := by
    simp only [highestExponent]
    omega
  obtain ⟨m, e, hf, ⟨he, hm⟩ | ⟨he, hm⟩⟩ := ofRatio_eq_finite (decide (x < 0)) hn hlt
  · obtain ⟨hpos, hsize⟩ := scaled_bounds hn
    rw [he] at hm
    generalize scaled x.natAbs 1 (exponentOf x.natAbs 1) = r at hpos hsize hm
    have hbelow := div_le_nearest r.1 r.2
    have habove := nearest_le r.1 r.2
    have hdiv := Nat.div_le_self r.1 r.2
    exact ⟨_, m, e, hf, by omega, by omega, by omega, by omega⟩
  · exact ⟨_, m, e, hf, by omega, by omega, by omega, by omega⟩

theorem ratio_bounds {m : Nat} {e : Int} (hm : m ≤ 2 ^ 182) (hlow : -53 ≤ e) (hhigh : e ≤ 128) :
    (ratio m e).1 ≤ 2 ^ 182 * 2 ^ 128 ∧ (ratio m e).2 ≤ 2 ^ 53 := by
  simp only [ratio, Nat.pow_eq]
  split
  · exact ⟨Nat.mul_le_mul hm (Nat.pow_le_pow_right (by decide) (by omega)),
      Nat.one_le_two_pow⟩
  · exact ⟨by omega, Nat.pow_le_pow_right (by decide) (by omega)⟩

theorem div_finite (s t : Bool) (m : Nat) (e : Int) {n : Nat} (f : Int) (hn : n ≠ 0) :
    div (.finite s m e) (.finite t n f) =
      ofRatio (s != t) ((ratio m e).1 * (ratio n f).2) ((ratio m e).2 * (ratio n f).1) := by
  unfold div
  exact if_neg hn

theorem isFinite_ofInt_div {x y : Int} (hx : x.natAbs < 2 ^ 128) (hy : y ≠ 0)
    (hbound : y.natAbs < 2 ^ 128) : (ofInt x / ofInt y).isFinite = true := by
  obtain ⟨t, n, f, hyf, hn, hnb, hfl, hfh⟩ := ofInt_eq_finite hy hbound
  obtain ⟨-, hd⟩ := ratio_bounds hnb hfl hfh
  change (div (ofInt x) (ofInt y)).isFinite = true
  rw [hyf]
  by_cases hx0 : x = 0
  · have hzero : ofInt x = zero false := by
      rw [hx0]
      exact ofRatio_zero false 1
    have hnone : (ratio 0 lowestExponent).1 * (ratio n f).2 = 0 := Nat.zero_mul _
    rw [hzero, zero, div_finite _ _ _ _ _ hn, hnone, ofRatio_zero]
    rfl
  · obtain ⟨s, m, e, hxf, hm, hmb, hel, heh⟩ := ofInt_eq_finite hx0 hx
    obtain ⟨ha, -⟩ := ratio_bounds hmb hel heh
    rw [hxf, div_finite _ _ _ _ _ hn]
    refine isFinite_ofRatio _ ?_
    have hprod : (ratio m e).1 * (ratio n f).2 ≤ 2 ^ 182 * 2 ^ 128 * 2 ^ 53 := Nat.mul_le_mul ha hd
    by_cases hz : (ratio m e).1 * (ratio n f).2 = 0
    · rw [hz]
      exact Nat.zero_le _
    · have hlt : (ratio m e).1 * (ratio n f).2 < 2 ^ 364 := by omega
      have hlog := (Nat.log2_lt hz).2 hlt
      omega

end PackageModularity.Binary64

import Mathlib.Data.List.Basic
import PackageModularity.Number.Notation
import PackageModularity.Text.Blank

/-! The characters of a written number: digits, a sign, a point, or a word. -/
namespace PackageModularity

/-- A character that a number can be written with: it is ASCII and no white space. -/
structure IsVisible (c : Char) : Prop where
  ascii : c.toNat < 128
  noBlank : isBlank c = false

theorem isVisible_of_isDigit {c : Char} (h : c.isDigit = true) : IsVisible c := by
  obtain ⟨hlow, hhigh⟩ : 48 ≤ c.toNat ∧ c.toNat ≤ 57 := Char.isDigit_iff_toNat.1 h
  refine ⟨by omega, ?_⟩
  simp only [isBlank, Bool.or_eq_false_iff, Bool.and_eq_false_iff, decide_eq_false_iff_not,
    beq_eq_false_iff_ne]
  omega

theorem trimBlanks_of_isVisible {text : String} (h : ∀ c ∈ text.toList, IsVisible c) :
    trimBlanks text = text := by
  have hkeep : ∀ cs : List Char, (∀ c ∈ cs, IsVisible c) → cs.dropWhile isBlank = cs := by
    intro cs hcs
    cases cs with
    | nil => rfl
    | cons c r => rw [List.dropWhile_cons_of_neg (by simp [(hcs c List.mem_cons_self).noBlank])]
  rw [trimBlanks, hkeep _ h, hkeep _ fun c hc => h c (List.mem_reverse.1 hc), List.reverse_reverse,
    String.ofList_toList]

namespace Layout

theorem isVisible_writeOut {l : Layout} {digits : List Char} (hdigits : ∀ c ∈ digits, IsVisible c)
    {point : Int} : ∀ c ∈ l.writeOut digits point, IsVisible c := by
  have hpoint : IsVisible '.' := ⟨by decide, by decide⟩
  have hzero : IsVisible '0' := ⟨by decide, by decide⟩
  have hzeros : ∀ n, ∀ c ∈ zeros n, IsVisible c := fun n c hc =>
    (List.eq_of_mem_replicate hc) ▸ hzero
  intro c hc
  unfold writeOut at hc
  dsimp only at hc
  split at hc
  · simp only [List.cons_append, List.nil_append, List.mem_cons, List.mem_append] at hc
    rcases hc with rfl | rfl | hc | hc
    · exact hzero
    · exact hpoint
    · exact hzeros _ c hc
    · exact hdigits c hc
  · split at hc
    · simp only [List.mem_append, List.mem_singleton] at hc
      rcases hc with (hc | rfl) | hc
      · exact hdigits c (List.mem_of_mem_take hc)
      · exact hpoint
      · exact hdigits c (List.mem_of_mem_drop hc)
    · simp only [List.mem_append] at hc
      rcases hc with (hc | hc) | hc
      · exact hdigits c hc
      · exact hzeros _ c hc
      · split at hc
        · simp only [List.mem_cons, List.not_mem_nil, or_false] at hc
          rcases hc with rfl | rfl
          · exact hpoint
          · exact hzero
        · simp at hc

theorem isVisible_write (x : Binary64) : ∀ c ∈ (plain.write x).toList, IsVisible c := by
  cases x with
  | nan =>
    intro c hc
    have hcases : c = 'N' ∨ c = 'a' ∨ c = 'N' := by simpa [write] using hc
    rcases hcases with rfl | rfl | rfl <;> exact ⟨by decide, by decide⟩
  | infinite negative =>
    intro c hc
    have hcases : c = '-' ∨ c = 'i' ∨ c = 'n' ∨ c = 'f' := by
      cases negative
      · exact Or.inr (by simpa [write] using hc)
      · simpa [write] using hc
    rcases hcases with rfl | rfl | rfl | rfl <;> exact ⟨by decide, by decide⟩
  | finite negative m e =>
    intro c hc
    simp only [write, String.toList_ofList, List.mem_append] at hc
    rcases hc with hc | hc
    · have hsign : c = '-' := by
        cases negative with
        | false => simp at hc
        | true => simpa using hc
      exact hsign ▸ ⟨by decide, by decide⟩
    · unfold magnitude at hc
      split at hc
      · have hzero : c = '0' := by simpa [plain] using hc
        exact hzero ▸ ⟨by decide, by decide⟩
      · refine isVisible_writeOut (fun d hd => ?_) c hc
        exact isVisible_of_isDigit (Nat.isDigit_of_mem_toDigits (by decide) (by decide) hd)

end Layout

end PackageModularity

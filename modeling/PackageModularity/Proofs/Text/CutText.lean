import PackageModularity.Proofs.Text.EncodedText

/-!
Bytes that are cut in front of and behind an ASCII byte. No character and no gap reaches over such a
byte, so what stands before it and behind it reads as it would alone.
-/
namespace PackageModularity.Utf8

/-- A character in the making is not continued by an ASCII byte, so it ends there as at the end. -/
theorem follow_append {b : UInt8} {low : UInt8} (hb : b < 0x80) (hlow : 0x80 ≤ low)
    (value owed : Nat) (high : UInt8) (xs ys : List UInt8) :
    follow value owed low high (xs ++ b :: ys) = follow value owed low high xs ∧
      (follow value owed low high xs).2 ≤ xs.length := by
  induction owed generalizing value low high xs with
  | zero => exact ⟨rfl, Nat.zero_le _⟩
  | succ owed ih =>
    cases xs with
    | nil =>
      have hout : ¬ low ≤ b := by
        rw [UInt8.le_iff_toNat_le] at hlow ⊢
        rw [UInt8.lt_iff_toNat_lt] at hb
        omega
      simp [follow, hout]
    | cons c r =>
      obtain ⟨hsame, hused⟩ := ih (UInt8.le_refl _) (value * 64 + (c.toNat - 0x80)) 0xBF r
      rw [List.cons_append, follow, follow, hsame]
      split
      · exact ⟨rfl, Nat.succ_le_succ hused⟩
      · exact ⟨rfl, Nat.zero_le _⟩

theorem low_of_lead? {c low high : UInt8} {value owed : Nat}
    (h : lead? c = some (value, owed, low, high)) : 0x80 ≤ low := by
  have hall : ∀ c : UInt8, ∀ l ∈ lead? c, 0x80 ≤ l.2.2.1 := by decide +kernel
  exact hall c _ h

theorem first_append {b : UInt8} (hb : b < 0x80) (c : UInt8) (xs ys : List UInt8) :
    first c (xs ++ b :: ys) = first c xs ∧ (first c xs).2 ≤ xs.length := by
  rw [first, first]
  cases h : lead? c with
  | none => exact ⟨rfl, Nat.zero_le _⟩
  | some asked =>
    obtain ⟨value, owed, low, high⟩ := asked
    exact follow_append hb (low_of_lead? h) value owed high xs ys

theorem first_ascii {b : UInt8} (hb : b < 0x80) (ys : List UInt8) :
    first b ys = (some (Char.ofNat b.toNat), 0) := by
  have hnat : b.toNat < 128 := UInt8.lt_iff_toNat_lt.1 hb
  rw [first_eq, if_pos hnat]

theorem pieces_append_ascii {b : UInt8} (hb : b < 0x80) (xs ys : List UInt8) :
    pieces (xs ++ b :: ys) = pieces xs ++ some (Char.ofNat b.toNat) :: pieces ys := by
  induction hn : xs.length using Nat.strong_induction_on generalizing xs with
  | _ n ih =>
    cases xs with
    | nil => exact pieces_of_first (first_ascii hb ys)
    | cons c r =>
      obtain ⟨hsame, hused⟩ := first_append hb c r ys
      cases hfirst : first c r with
      | mk d used =>
        rw [hfirst] at hsame hused
        have hless : (r.drop used).length < n := by
          rw [← hn, List.length_drop, List.length_cons]
          omega
        have hrest := ih _ hless _ rfl
        rw [List.cons_append, pieces_of_first hsame, pieces_of_first hfirst,
          List.drop_append_of_le_length hused, hrest, List.cons_append]

theorem mem_of_mem_pieces {bytes : List UInt8} {c : Char} (h : some c ∈ pieces bytes) :
    ∃ b ∈ bytes, ∃ tail, String.utf8EncodeChar c = b :: tail := by
  induction hn : bytes.length using Nat.strong_induction_on generalizing bytes with
  | _ n ih =>
    cases bytes with
    | nil => simp [pieces_nil] at h
    | cons b rest =>
      rw [pieces_of_first rfl] at h
      rcases List.mem_cons.1 h with hfirst | hlater
      · obtain ⟨tail, -, -, -, hbytes⟩ := exists_of_first (c := c) (Prod.ext hfirst.symm rfl)
        exact ⟨b, List.mem_cons_self, tail, hbytes⟩
      · have hless : (rest.drop (first b rest).2).length < n := by
          rw [← hn, List.length_drop, List.length_cons]
          omega
        obtain ⟨b', hb', henc⟩ := ih _ hless hlater rfl
        exact ⟨b', List.mem_cons_of_mem _ (List.mem_of_mem_drop hb'), henc⟩

theorem pieces_ne_nil {bytes : List UInt8} (h : bytes ≠ []) : pieces bytes ≠ [] := by
  obtain ⟨b, rest, rfl⟩ := List.exists_cons_of_ne_nil h
  simp [pieces_of_first rfl]

theorem toList_decodeLossy (bytes : List UInt8) :
    (decodeLossy bytes).toList = (pieces bytes).map fun c => c.getD '\uFFFD' := by
  rw [decodeLossy, String.toList_ofList]

theorem decodeLossy_encode (text : String) : decodeLossy (encode text) = text := by
  have h := pieces_flatMap_append text.toList []
  rw [List.append_nil, pieces_nil, List.append_nil, ← encode_eq] at h
  rw [decodeLossy, h, List.map_map]
  exact (congrArg String.ofList (List.map_id _)).trans String.ofList_toList

end PackageModularity.Utf8

import Mathlib.Data.FinEnum
import Mathlib.Data.Option.Basic
import Mathlib.Tactic.SplitIfs
import PackageModularity.Text.Utf8

/-!
Texts and their bytes. Reading takes exactly the encodings of texts, each as the text it encodes,
and a text ends with another exactly if its bytes end with the bytes of the other.
-/
namespace PackageModularity

theorem toList_loop (bytes : ByteArray) (i : Nat) (seen : List UInt8) :
    ByteArray.toList.loop bytes i seen = seen.reverse ++ bytes.data.toList.drop i := by
  fun_induction ByteArray.toList.loop bytes i seen with
  | case1 i seen hi ih =>
    have hi' : i < bytes.data.toList.length := by simpa using hi
    rw [ih, List.reverse_cons, List.append_assoc, List.drop_eq_getElem_cons hi']
    simp [ByteArray.get!, getElem!_pos, hi]
  | case2 i seen hi =>
    have hi' : bytes.data.toList.length ≤ i := by simpa using hi
    rw [List.drop_eq_nil_of_le hi', List.append_nil]

namespace Utf8

theorem encode_ofList (cs : List Char) :
    encode (String.ofList cs) = cs.flatMap String.utf8EncodeChar := by
  rw [encode, String.toUTF8, String.toByteArray_ofList, ByteArray.toList, toList_loop,
    List.utf8Encode]
  simp

theorem encode_eq (text : String) : encode text = text.toList.flatMap String.utf8EncodeChar := by
  rw [← encode_ofList, String.ofList_toList]

/-! ### Reading one character -/

theorem scan_eq_drop (skip : Nat) (bytes : List UInt8) :
    scan skip bytes = scan 0 (bytes.drop skip) := by
  induction bytes generalizing skip with
  | nil => cases skip <;> rfl
  | cons b r ih =>
    cases skip with
    | zero => rfl
    | succ skip => exact ih skip

theorem first_eq (b : UInt8) (rest : List UInt8) : first b rest =
    if b.toNat < 128 then (some (Char.ofNat b.toNat), 0)
    else if b.toNat < 194 then (none, 0)
    else if b.toNat < 224 then follow (b.toNat - 192) 1 0x80 0xBF rest
    else if b.toNat < 240 then
      follow (b.toNat - 224) 2 (if b.toNat = 224 then 0xA0 else 0x80)
        (if b.toNat = 237 then 0x9F else 0xBF) rest
    else if b.toNat < 245 then
      follow (b.toNat - 240) 3 (if b.toNat = 240 then 0x90 else 0x80)
        (if b.toNat = 244 then 0x8F else 0xBF) rest
    else (none, 0) := by
  have hlead : lead? b =
      if b.toNat < 128 then some (b.toNat, 0, 0x80, 0xBF)
      else if b.toNat < 194 then none
      else if b.toNat < 224 then some (b.toNat - 192, 1, 0x80, 0xBF)
      else if b.toNat < 240 then
        some (b.toNat - 224, 2, if b.toNat = 224 then 0xA0 else 0x80,
          if b.toNat = 237 then 0x9F else 0xBF)
      else if b.toNat < 245 then
        some (b.toNat - 240, 3, if b.toNat = 240 then 0x90 else 0x80,
          if b.toNat = 244 then 0x8F else 0xBF)
      else none := by
    clear rest
    revert b
    decide +kernel
  rw [first, hlead]
  split_ifs <;> rfl

theorem toNat_ofNat_of_lt {n : Nat} (h : n < 256) : (UInt8.ofNat n).toNat = n := by
  rw [UInt8.toNat_ofNat']
  exact Nat.mod_eq_of_lt h

theorem follow_cons {w : Nat} {low high : UInt8} (hw : w < 64) (hlow : low.toNat ≤ w + 128)
    (hhigh : w + 128 ≤ high.toNat) (value owed : Nat) (r : List UInt8) :
    follow value (owed + 1) low high (UInt8.ofNat (w + 128) :: r) =
      ((follow (value * 64 + w) owed 0x80 0xBF r).1,
        (follow (value * 64 + w) owed 0x80 0xBF r).2 + 1) := by
  have hb : (UInt8.ofNat (w + 128)).toNat = w + 128 := toNat_ofNat_of_lt (by omega)
  have hrange : low ≤ UInt8.ofNat (w + 128) ∧ UInt8.ofNat (w + 128) ≤ high := by
    rw [UInt8.le_iff_toNat_le, UInt8.le_iff_toNat_le, hb]
    exact ⟨hlow, hhigh⟩
  rw [follow, if_pos (by simpa using hrange), hb, show w + 128 - 0x80 = w by omega]

theorem exists_of_follow {value owed used : Nat} {low high : UInt8} {bytes : List UInt8} {c : Char}
    (hlow : 128 ≤ low.toNat) (hhigh : high.toNat ≤ 191)
    (h : follow value (owed + 1) low high bytes = (some c, used)) :
    ∃ w r n, bytes = UInt8.ofNat (w + 128) :: r ∧ w < 64 ∧ low.toNat ≤ w + 128 ∧
      w + 128 ≤ high.toNat ∧ used = n + 1 ∧
      follow (value * 64 + w) owed 0x80 0xBF r = (some c, n) := by
  cases bytes with
  | nil => simp [follow] at h
  | cons b r =>
    by_cases hrange : low ≤ b ∧ b ≤ high
    · rw [UInt8.le_iff_toNat_le, UInt8.le_iff_toNat_le] at hrange
      have hb : b.toNat - 128 + 128 = b.toNat := by omega
      have heq : UInt8.ofNat (b.toNat - 128 + 128) = b := by rw [hb, UInt8.ofNat_toNat]
      have hcons : follow value (owed + 1) low high (UInt8.ofNat (b.toNat - 128 + 128) :: r) = _ :=
        follow_cons (by omega) (by omega) (by omega) value owed r
      rw [heq, h] at hcons
      obtain ⟨hc, hused⟩ := Prod.mk.inj hcons
      exact ⟨b.toNat - 128, r, _, by rw [heq], by omega, by omega, by omega, hused,
        Prod.ext hc.symm rfl⟩
    · rw [follow, if_neg (by simpa using hrange)] at h
      simp at h

theorem utf8EncodeChar_ofNat {v : Nat} (h : v.isValidChar) :
    String.utf8EncodeChar (Char.ofNat v) =
      if v ≤ 127 then [UInt8.ofNat v]
      else if v ≤ 2047 then [UInt8.ofNat (v / 64 % 32 + 192), UInt8.ofNat (v % 64 + 128)]
      else if v ≤ 65535 then
        [UInt8.ofNat (v / 4096 % 16 + 224), UInt8.ofNat (v / 64 % 64 + 128),
          UInt8.ofNat (v % 64 + 128)]
      else
        [UInt8.ofNat (v / 262144 % 8 + 240), UInt8.ofNat (v / 4096 % 64 + 128),
          UInt8.ofNat (v / 64 % 64 + 128), UInt8.ofNat (v % 64 + 128)] := by
  have hval : (Char.ofNat v).val.toNat = v := by
    rw [Char.ofNat, dif_pos h]
    rfl
  simp only [String.utf8EncodeChar, hval]

theorem first_utf8EncodeChar {c : Char} {b : UInt8} {tail : List UInt8}
    (h : String.utf8EncodeChar c = b :: tail) (rest : List UInt8) :
    first b (tail ++ rest) = (some c, tail.length) := by
  have hvalid : c.toNat.isValidChar := c.valid
  rw [← Char.ofNat_toNat c, utf8EncodeChar_ofNat hvalid] at h
  rw [← Char.ofNat_toNat c]
  generalize c.toNat = v at h hvalid
  simp only [Nat.isValidChar] at hvalid
  rw [first_eq]
  split_ifs at h with h1 h2 h3
  · obtain ⟨rfl, rfl⟩ := List.cons.inj h
    rw [toNat_ofNat_of_lt (by omega), if_pos (by omega)]
    rfl
  · obtain ⟨rfl, rfl⟩ := List.cons.inj h
    have hv : (v / 64 % 32 + 192 - 192) * 64 + v % 64 = v := by omega
    rw [toNat_ofNat_of_lt (by omega), if_neg (by omega), if_neg (by omega), if_pos (by omega),
      List.singleton_append, follow_cons (by omega) (by simp) (by simp; omega), hv]
    rfl
  · obtain ⟨rfl, rfl⟩ := List.cons.inj h
    have hv : ((v / 4096 % 16 + 224 - 224) * 64 + v / 64 % 64) * 64 + v % 64 = v := by omega
    rw [toNat_ofNat_of_lt (by omega), if_neg (by omega), if_neg (by omega), if_neg (by omega),
      if_pos (by omega), List.cons_append, List.singleton_append,
      follow_cons (by omega) (by split <;> simp; omega) (by split <;> simp <;> omega),
      follow_cons (by omega) (by simp) (by simp; omega), hv]
    rfl
  · obtain ⟨rfl, rfl⟩ := List.cons.inj h
    have hv : (((v / 262144 % 8 + 240 - 240) * 64 + v / 4096 % 64) * 64 + v / 64 % 64) * 64 +
        v % 64 = v := by omega
    rw [toNat_ofNat_of_lt (by omega), if_neg (by omega), if_neg (by omega), if_neg (by omega),
      if_neg (by omega), if_pos (by omega), List.cons_append, List.cons_append,
      List.singleton_append,
      follow_cons (by omega) (by split <;> simp; omega) (by split <;> simp <;> omega),
      follow_cons (by omega) (by simp) (by simp; omega),
      follow_cons (by omega) (by simp) (by simp; omega), hv]
    rfl

/-! Bytes in the ranges that reading asks for are the encoding of the character that it gives. -/

theorem utf8EncodeChar_of_two {b : UInt8} {w : Nat} (hb : 194 ≤ b.toNat ∧ b.toNat < 224)
    (hw : w < 64) : String.utf8EncodeChar (Char.ofNat ((b.toNat - 192) * 64 + w)) =
      [b, UInt8.ofNat (w + 128)] := by
  generalize hv : (b.toNat - 192) * 64 + w = v
  have hbyte : UInt8.ofNat b.toNat = b := UInt8.ofNat_toNat
  rw [utf8EncodeChar_ofNat (.inl (by omega)), if_neg (by omega), if_pos (by omega),
    show v / 64 % 32 + 192 = b.toNat by omega, show v % 64 = w by omega, hbyte]

theorem utf8EncodeChar_of_three {b : UInt8} {w w' : Nat} (hb : 224 ≤ b.toNat ∧ b.toNat < 240)
    (hlow : (if b.toNat = 224 then (0xA0 : UInt8) else 0x80).toNat ≤ w + 128)
    (hhigh : w + 128 ≤ (if b.toNat = 237 then (0x9F : UInt8) else 0xBF).toNat) (hw' : w' < 64) :
    String.utf8EncodeChar (Char.ofNat (((b.toNat - 224) * 64 + w) * 64 + w')) =
      [b, UInt8.ofNat (w + 128), UInt8.ofNat (w' + 128)] := by
  generalize hv : ((b.toNat - 224) * 64 + w) * 64 + w' = v
  have hbyte : UInt8.ofNat b.toNat = b := UInt8.ofNat_toNat
  have hw : w < 64 := by
    split at hhigh <;> simp at hhigh <;> omega
  have hsize : ¬ v ≤ 2047 := by
    split at hlow <;> simp at hlow <;> omega
  have hvalid : v.isValidChar := by
    unfold Nat.isValidChar
    split at hhigh <;> simp at hhigh <;> omega
  rw [utf8EncodeChar_ofNat hvalid, if_neg (by omega), if_neg hsize, if_pos (by omega),
    show v / 4096 % 16 + 224 = b.toNat by omega, show v / 64 % 64 = w by omega,
    show v % 64 = w' by omega, hbyte]

theorem utf8EncodeChar_of_four {b : UInt8} {w w' w'' : Nat} (hb : 240 ≤ b.toNat ∧ b.toNat < 245)
    (hlow : (if b.toNat = 240 then (0x90 : UInt8) else 0x80).toNat ≤ w + 128)
    (hhigh : w + 128 ≤ (if b.toNat = 244 then (0x8F : UInt8) else 0xBF).toNat) (hw' : w' < 64)
    (hw'' : w'' < 64) :
    String.utf8EncodeChar (Char.ofNat ((((b.toNat - 240) * 64 + w) * 64 + w') * 64 + w'')) =
      [b, UInt8.ofNat (w + 128), UInt8.ofNat (w' + 128), UInt8.ofNat (w'' + 128)] := by
  generalize hv : (((b.toNat - 240) * 64 + w) * 64 + w') * 64 + w'' = v
  have hbyte : UInt8.ofNat b.toNat = b := UInt8.ofNat_toNat
  have hw : w < 64 := by
    split at hhigh <;> simp at hhigh <;> omega
  have hsize : ¬ v ≤ 65535 := by
    split at hlow <;> simp at hlow <;> omega
  have hvalid : v.isValidChar := by
    unfold Nat.isValidChar
    split at hhigh <;> simp at hhigh <;> omega
  rw [utf8EncodeChar_ofNat hvalid, if_neg (by omega), if_neg (by omega), if_neg hsize,
    show v / 262144 % 8 + 240 = b.toNat by omega, show v / 4096 % 64 = w by omega,
    show v / 64 % 64 = w' by omega, show v % 64 = w'' by omega, hbyte]

theorem exists_of_first {b : UInt8} {rest : List UInt8} {c : Char} {used : Nat}
    (h : first b rest = (some c, used)) :
    ∃ tail more, rest = tail ++ more ∧ used = tail.length ∧
      String.utf8EncodeChar c = b :: tail := by
  rw [first_eq] at h
  -- one case for each length of a character, and the gaps between them
  by_cases h1 : b.toNat < 128
  · rw [if_pos h1] at h
    obtain ⟨hc, rfl⟩ := Prod.mk.inj h
    obtain rfl := Option.some.inj hc
    refine ⟨[], rest, rfl, rfl, ?_⟩
    rw [utf8EncodeChar_ofNat (.inl (by omega)), if_pos (by omega), UInt8.ofNat_toNat]
  by_cases h2 : b.toNat < 194
  · simp [h1, h2] at h
  by_cases h3 : b.toNat < 224
  · rw [if_neg h1, if_neg h2, if_pos h3] at h
    obtain ⟨w, more, n, rfl, hw, -, -, rfl, hrest⟩ := exists_of_follow (by simp) (by simp) h
    obtain ⟨hc, rfl⟩ := Prod.mk.inj hrest
    obtain rfl := Option.some.inj hc
    exact ⟨[_], more, rfl, rfl, utf8EncodeChar_of_two ⟨by omega, h3⟩ hw⟩
  by_cases h4 : b.toNat < 240
  · rw [if_neg h1, if_neg h2, if_neg h3, if_pos h4] at h
    obtain ⟨w, r, n, rfl, -, hlow, hhigh, rfl, hone⟩ :=
      exists_of_follow (by split <;> simp) (by split <;> simp) h
    obtain ⟨w', more, n, rfl, hw', -, -, rfl, hrest⟩ := exists_of_follow (by simp) (by simp) hone
    obtain ⟨hc, rfl⟩ := Prod.mk.inj hrest
    obtain rfl := Option.some.inj hc
    exact ⟨[_, _], more, rfl, rfl, utf8EncodeChar_of_three ⟨by omega, h4⟩ hlow hhigh hw'⟩
  by_cases h5 : b.toNat < 245
  · rw [if_neg h1, if_neg h2, if_neg h3, if_neg h4, if_pos h5] at h
    obtain ⟨w, r, n, rfl, -, hlow, hhigh, rfl, htwo⟩ :=
      exists_of_follow (by split <;> simp) (by split <;> simp) h
    obtain ⟨w', r, n, rfl, hw', -, -, rfl, hone⟩ := exists_of_follow (by simp) (by simp) htwo
    obtain ⟨w'', more, n, rfl, hw'', -, -, rfl, hrest⟩ := exists_of_follow (by simp) (by simp) hone
    obtain ⟨hc, rfl⟩ := Prod.mk.inj hrest
    obtain rfl := Option.some.inj hc
    exact ⟨[_, _, _], more, rfl, rfl,
      utf8EncodeChar_of_four ⟨by omega, h5⟩ hlow hhigh hw' hw''⟩
  · simp [h1, h2, h3, h4, h5] at h

/-! ### Reading a text -/

theorem exists_utf8EncodeChar_eq_cons (c : Char) :
    ∃ b tail, String.utf8EncodeChar c = b :: tail := by
  refine List.exists_cons_of_ne_nil fun h => ?_
  have hlength := String.length_utf8EncodeChar c
  rw [h] at hlength
  exact absurd hlength.symm (Nat.ne_of_gt c.utf8Size_pos)

theorem pieces_nil : pieces [] = [] := rfl

theorem pieces_of_first {b : UInt8} {rest : List UInt8} {c : Option Char} {used : Nat}
    (h : first b rest = (c, used)) : pieces (b :: rest) = c :: pieces (rest.drop used) := by
  rw [pieces, scan, h]
  exact congrArg _ (scan_eq_drop used rest)

theorem pieces_flatMap_append (cs : List Char) (rest : List UInt8) :
    pieces (cs.flatMap String.utf8EncodeChar ++ rest) = cs.map some ++ pieces rest := by
  induction cs with
  | nil => rfl
  | cons c r ih =>
    obtain ⟨b, tail, hbytes⟩ := exists_utf8EncodeChar_eq_cons c
    rw [List.flatMap_cons, List.append_assoc, hbytes, List.cons_append,
      pieces_of_first (first_utf8EncodeChar hbytes _), List.drop_left, ih]
    rfl

theorem eq_flatMap_of_pieces {bytes : List UInt8} {cs : List Char}
    (h : pieces bytes = cs.map some) : bytes = cs.flatMap String.utf8EncodeChar := by
  induction cs generalizing bytes with
  | nil =>
    cases bytes with
    | nil => rfl
    | cons b rest => simp [pieces_of_first rfl] at h
  | cons c r ih =>
    cases bytes with
    | nil => simp [pieces_nil] at h
    | cons b rest =>
      cases hfirst : first b rest with
      | mk d used =>
        rw [pieces_of_first hfirst, List.map_cons] at h
        obtain ⟨rfl, hr⟩ := List.cons.inj h
        obtain ⟨tail, more, rfl, rfl, hbytes⟩ := exists_of_first hfirst
        rw [List.drop_left] at hr
        rw [List.flatMap_cons, hbytes, ← ih hr, List.cons_append]

theorem mapM_eq_some_iff (ps : List (Option Char)) (cs : List Char) :
    ps.mapM (fun c => c) = some cs ↔ ps = cs.map some := by
  induction ps generalizing cs with
  | nil => cases cs <;> simp
  | cons p r ih =>
    cases p with
    | none => cases cs <;> simp
    | some d => cases cs <;> simp [Option.bind_eq_some_iff, ih, and_comm]

/-- Bytes read as a text exactly if they are its encoding. -/
theorem decode?_eq_some_iff {bytes : List UInt8} {text : String} :
    decode? bytes = some text ↔ encode text = bytes := by
  rw [decode?, Option.map_eq_some_iff, encode_eq]
  constructor
  · rintro ⟨cs, hcs, rfl⟩
    rw [String.toList_ofList]
    exact (eq_flatMap_of_pieces ((mapM_eq_some_iff _ _).1 hcs)).symm
  · rintro rfl
    refine ⟨text.toList, (mapM_eq_some_iff _ _).2 ?_, String.ofList_toList⟩
    have h := pieces_flatMap_append text.toList []
    rwa [List.append_nil, pieces_nil, List.append_nil] at h

theorem decode?_encode (text : String) : decode? (encode text) = some text :=
  decode?_eq_some_iff.2 rfl

/-! ### The end of a text -/

theorem continues_iff {b : UInt8} : continues b = true ↔ 128 ≤ b.toNat ∧ b.toNat ≤ 191 := by
  rw [continues, Bool.and_eq_true, decide_eq_true_iff, decide_eq_true_iff, UInt8.le_iff_toNat_le,
    UInt8.le_iff_toNat_le]
  rfl

theorem continues_utf8EncodeChar {c : Char} {b : UInt8} {tail : List UInt8}
    (h : String.utf8EncodeChar c = b :: tail) :
    continues b = false ∧ ∀ t ∈ tail, continues t = true := by
  have hvalid : c.toNat.isValidChar := c.valid
  rw [← Char.ofNat_toNat c, utf8EncodeChar_ofNat hvalid] at h
  generalize c.toNat = v at h hvalid
  simp only [Nat.isValidChar] at hvalid
  rw [← Bool.not_eq_true]
  simp only [continues_iff]
  split_ifs at h <;> obtain ⟨rfl, rfl⟩ := List.cons.inj h <;> simp <;> omega

theorem flatMap_inj {cs ds : List Char} (h : cs.flatMap String.utf8EncodeChar =
    ds.flatMap String.utf8EncodeChar) : cs = ds := by
  have hcs := pieces_flatMap_append cs []
  rw [h, pieces_flatMap_append, List.append_cancel_right_eq] at hcs
  exact (List.map_injective_iff.2 (Option.some_injective _) hcs).symm

/-- What a text ends with, its bytes end with, and the other way round: no text begins inside a
character. -/
theorem flatMap_suffix_iff {cs ds : List Char} :
    ds.flatMap String.utf8EncodeChar <:+ cs.flatMap String.utf8EncodeChar ↔ ds <:+ cs := by
  constructor
  · intro h
    induction cs with
    | nil =>
      rw [List.flatMap_nil, List.suffix_nil] at h
      rw [flatMap_inj (h.trans List.flatMap_nil.symm)]
    | cons c r ih =>
      obtain ⟨front, hfront⟩ := h
      rw [List.flatMap_cons] at hfront
      rcases List.append_eq_append_iff.1 hfront with ⟨own, hc, hds⟩ | ⟨skipped, -, hr⟩
      · cases front with
        | nil =>
          have heq : ds = c :: r := flatMap_inj (by rw [hds, ← hc.trans (List.nil_append own)]; rfl)
          rw [heq]
        | cons b front =>
          cases own with
          | nil =>
            rw [flatMap_inj hds]
            exact List.suffix_cons c r
          | cons a own =>
            have ha : continues a = true := (continues_utf8EncodeChar hc).2 a (by simp)
            cases ds with
            | nil => simp at hds
            | cons d ds =>
              -- a text would begin inside a character
              obtain ⟨b', tail, hd⟩ := exists_utf8EncodeChar_eq_cons d
              rw [List.flatMap_cons, hd] at hds
              obtain rfl : b' = a := (List.cons.inj hds).1
              simp [(continues_utf8EncodeChar hd).1] at ha
      · exact (ih ⟨skipped, hr.symm⟩).trans (List.suffix_cons c r)
  · rintro ⟨front, rfl⟩
    rw [List.flatMap_append]
    exact List.suffix_append _ _

end Utf8

end PackageModularity

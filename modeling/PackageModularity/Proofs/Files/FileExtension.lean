import Mathlib.Data.List.Basic
import PackageModularity.Proofs.Files.JoinedPath

/-! A file name with an extension put behind it, and taken off again. -/
namespace PackageModularity

theorem joinWith_map_ofList (sep : Char) (cs : List Char) :
    joinWith sep.toString ((splitOnChar sep cs).map String.ofList) = String.ofList cs := by
  induction cs with
  | nil => rfl
  | cons c r ih =>
    obtain ⟨p, ps, hp⟩ := List.exists_cons_of_ne_nil (splitOnChar_ne_nil sep r)
    rw [hp] at ih
    by_cases hc : c = sep
    · have hsplit : splitOnChar sep (c :: r) = [] :: p :: ps := by simp [splitOnChar, hc, hp]
      rw [hsplit, List.map_cons, List.map_cons, joinWith, ← List.map_cons, ih, hc,
        ← String.toList_inj]
      simp
    · have hsplit : splitOnChar sep (c :: r) = (c :: p) :: ps := by simp [splitOnChar, hc, hp]
      rw [hsplit]
      cases ps with
      | nil =>
        rw [← String.toList_inj] at ih ⊢
        simpa [joinWith] using ih
      | cons q qs =>
        rw [← String.toList_inj] at ih ⊢
        simpa [joinWith] using ih

theorem joinWith_concat (sep : String) {parts : List String} (h : parts ≠ []) (last : String) :
    joinWith sep (parts ++ [last]) = joinWith sep parts ++ sep ++ last := by
  induction parts with
  | nil => exact absurd rfl h
  | cons a parts ih =>
    cases parts with
    | nil => rfl
    | cons b r =>
      have hrest := ih (List.cons_ne_nil b r)
      simp only [List.cons_append, joinWith] at hrest ⊢
      rw [hrest]
      simp only [String.append_assoc]

theorem Name.no_dot_of_mem_segments {name s : String} (h : s ∈ segments name) : '.' ∉ s.toList := by
  obtain ⟨piece, hpiece, rfl⟩ := List.mem_map.1 h
  rw [String.toList_ofList]
  exact not_mem_of_mem_splitOnChar hpiece

namespace FileName

theorem joinWith_segments (name : String) : joinWith "." (Name.segments name) = name := by
  have hjoin := joinWith_map_ofList '.' name.toList
  rwa [String.ofList_toList] at hjoin

theorem segments_ne {name : String} (h : name ≠ "") :
    Name.segments name ≠ [] ∧ Name.segments name ≠ [""] := by
  have hjoin := joinWith_segments name
  constructor
  · intro hnil
    exact h (hjoin.symm.trans (congrArg (joinWith ".") hnil))
  · intro hempty
    exact h (hjoin.symm.trans (congrArg (joinWith ".") hempty))

theorem ofText_append {name ext : String} (hname : IsPiece name) (hdot : '.' ∉ ext.toList) :
    ofText (name ++ "." ++ ext) = ⟨name, some ext⟩ := by
  have htext : (name ++ "." ++ ext).toList = name.toList ++ '.' :: ext.toList := by simp
  have hsegments : Name.segments (name ++ "." ++ ext) = Name.segments name ++ [ext] := by
    rw [Name.segments, htext, splitOnChar_append, splitOnChar_of_not_mem hdot]
    simp [Name.segments]
  have hparent : name ++ "." ++ ext ≠ ".." := by
    intro h
    rw [h] at htext
    obtain ⟨c, r, hcr⟩ : ∃ c r, name.toList = c :: r :=
      List.exists_cons_of_ne_nil fun e => hname.nonempty (String.toList_inj.1 e)
    obtain ⟨rfl, hr⟩ : '.' = c ∧ ['.'] = r ++ '.' :: ext.toList := by simpa [hcr] using htext
    have hnil : r = [] := by
      have hlength := congrArg List.length hr
      simp only [List.length_append, List.length_cons, List.length_nil] at hlength
      exact List.length_eq_zero_iff.1 (by omega)
    exact hname.notCurrent (String.toList_inj.1 (by simp [hcr, hnil]))
  obtain ⟨hnil, hempty⟩ := segments_ne hname.nonempty
  have hjoin : joinWith "." (Name.segments name) = name := joinWith_segments name
  rw [ofText, if_neg hparent, hsegments]
  dsimp only
  split
  · rename_i heq
    simp at heq
  · rename_i heq
    exact absurd (by simpa using congrArg List.dropLast heq) hnil
  · rename_i heq
    exact absurd (by simpa using congrArg List.dropLast heq) hempty
  · rw [List.dropLast_concat, hjoin, List.getLast?_concat]

theorem segments_of_extension {name ext : String} (h : (ofText name).extension = some ext) :
    ∃ front, front ≠ [] ∧ Name.segments name = front ++ [ext] ∧
      (ofText name).stem = joinWith "." front := by
  unfold ofText at h ⊢
  split at h
  · simp at h
  · rename_i hparent
    rw [if_neg hparent]
    dsimp only at h ⊢
    split at h
    · simp at h
    · simp at h
    · simp at h
    · rename_i hone _
      have hlast := (List.dropLast_append_getLast? ext h).symm
      exact ⟨_, fun hempty => hone ext (by simpa [hempty] using hlast), hlast, rfl⟩

/-- A name is its stem with its extension behind it. -/
theorem eq_append_of_ofText {name stem ext : String} (h : ofText name = ⟨stem, some ext⟩) :
    name = stem ++ "." ++ ext := by
  obtain ⟨front, hne, hfront, hstem⟩ := segments_of_extension (congrArg extension h)
  calc name = joinWith "." (front ++ [ext]) := by rw [← hfront, joinWith_segments]
    _ = joinWith "." front ++ "." ++ ext := joinWith_concat "." hne ext
    _ = stem ++ "." ++ ext := by rw [← hstem, h]

theorem dot_not_mem_extension {name ext : String} (h : (ofText name).extension = some ext) :
    '.' ∉ ext.toList := by
  obtain ⟨front, -, hfront, -⟩ := segments_of_extension h
  have hsegment : ext ∈ Name.segments name := by simp [hfront]
  exact Name.no_dot_of_mem_segments hsegment

end FileName

end PackageModularity

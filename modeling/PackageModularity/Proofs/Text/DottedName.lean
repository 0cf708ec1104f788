import PackageModularity.Proofs.Files.FileExtension

/-! A name inside another has the segments of both, and is cut again at its first dot. -/
namespace PackageModularity.Name

/-- The name is all of the qualified name or what stands after one of its dots. -/
def EndsIn (qualified name : String) : Prop :=
  qualified = name ∨ ∃ outer, qualified = inside outer name

/-- The name is the other or goes on from it with further segments. -/
def Extends (name base : String) : Prop := name = base ∨ ∃ more, name = inside base more

theorem segments_inside (outer name : String) :
    segments (inside outer name) = segments outer ++ segments name := by
  have htext : (inside outer name).toList = outer.toList ++ '.' :: name.toList := by simp [inside]
  rw [segments, htext, splitOnChar_append, List.map_append]
  rfl

theorem segments_ne_nil (name : String) : segments name ≠ [] := by
  rw [segments, Ne, List.map_eq_nil_iff]
  exact splitOnChar_ne_nil _ _

theorem segments_of_no_dot {name : String} (h : '.' ∉ name.toList) : segments name = [name] := by
  rw [segments, splitOnChar_of_not_mem h, List.map_singleton, String.ofList_toList]

theorem eq_of_segments_eq {a b : String} (h : segments a = segments b) : a = b := by
  rw [← FileName.joinWith_segments a, h, FileName.joinWith_segments b]

theorem joinWith_append {front back : List String} (hf : front ≠ []) (hb : back ≠ []) :
    joinWith "." (front ++ back) = inside (joinWith "." front) (joinWith "." back) := by
  induction front with
  | nil => exact absurd rfl hf
  | cons a front ih =>
    cases front with
    | nil =>
      obtain ⟨b, back, rfl⟩ := List.exists_cons_of_ne_nil hb
      rfl
    | cons a' front =>
      have hrest := ih (List.cons_ne_nil a' front)
      simp only [List.cons_append, joinWith, inside] at hrest ⊢
      rw [hrest]
      simp only [String.append_assoc]

theorem extends_iff_prefix {name base : String} :
    Extends name base ↔ segments base <+: segments name := by
  constructor
  · rintro (rfl | ⟨more, rfl⟩)
    · exact List.prefix_rfl
    · rw [segments_inside]
      exact List.prefix_append _ _
  · rintro ⟨more, hmore⟩
    by_cases hempty : more = []
    · rw [hempty, List.append_nil] at hmore
      exact .inl (eq_of_segments_eq hmore.symm)
    · refine .inr ⟨joinWith "." more, ?_⟩
      rw [← FileName.joinWith_segments name, ← hmore, joinWith_append (segments_ne_nil base) hempty,
        FileName.joinWith_segments]

instance (name base : String) : Decidable (Extends name base) :=
  decidable_of_iff _ extends_iff_prefix.symm

theorem simple_inside (outer name : String) : simple (inside outer name) = simple name := by
  obtain ⟨s, r, h⟩ := List.exists_cons_of_ne_nil (segments_ne_nil name)
  rw [simple, simple, segments_inside, h, List.getLastD_eq_getLast?, List.getLastD_eq_getLast?,
    List.getLast?_append_of_ne_nil _ (List.cons_ne_nil s r)]

theorem simple_of_no_dot {name : String} (h : '.' ∉ name.toList) : simple name = name := by
  rw [simple, segments_of_no_dot h]
  rfl

theorem simple_mem_segments (name : String) : simple name ∈ segments name := by
  rw [simple, List.getLastD_eq_getLast?, List.getLast?_eq_some_getLast (segments_ne_nil name)]
  exact List.getLast_mem _

theorem splitFirst?_inside {head rest : String} (h : '.' ∉ head.toList) :
    splitFirst? (inside head rest) = some (head, rest) := by
  obtain ⟨s, r, hrest⟩ := List.exists_cons_of_ne_nil (segments_ne_nil rest)
  rw [splitFirst?, segments_inside, segments_of_no_dot h, hrest]
  show some (head, joinWith "." (s :: r)) = _
  rw [← hrest, FileName.joinWith_segments]

theorem eq_of_splitFirst? {name head rest : String} (h : splitFirst? name = some (head, rest)) :
    '.' ∉ head.toList ∧ name = inside head rest := by
  unfold splitFirst? at h
  split at h
  · rename_i a s r hsegments
    obtain ⟨rfl, rfl⟩ := Prod.mk.inj (Option.some.inj h)
    have hhead : a ∈ segments name := by simp [hsegments]
    refine ⟨no_dot_of_mem_segments hhead, ?_⟩
    rw [← FileName.joinWith_segments name, hsegments]
    rfl
  · simp at h

theorem endsIn_inside (outer name : String) : EndsIn (inside outer name) name := .inr ⟨outer, rfl⟩

theorem EndsIn.inside {qualified name : String} (h : EndsIn qualified name) (rest : String) :
    EndsIn (inside qualified rest) (inside name rest) := by
  rcases h with rfl | ⟨outer, rfl⟩
  · exact .inl rfl
  · refine .inr ⟨outer, ?_⟩
    simp only [Name.inside, String.append_assoc]

theorem eq_inside_qualifier (name : String) :
    name = simple name ∧ qualifier name = "" ∨ name = inside (qualifier name) (simple name) := by
  have hlast : (segments name).dropLast ++ [simple name] = segments name := by
    rw [simple, List.getLastD_eq_getLast?, List.getLast?_eq_some_getLast (segments_ne_nil name)]
    exact List.dropLast_append_getLast (segments_ne_nil name)
  have hname : joinWith "." ((segments name).dropLast ++ [simple name]) = name := by
    rw [hlast, FileName.joinWith_segments]
  by_cases hfront : (segments name).dropLast = []
  · rw [hfront] at hname
    exact .inl ⟨hname.symm, by rw [qualifier, hfront, joinWith]⟩
  · rw [joinWith_append hfront (List.cons_ne_nil _ _)] at hname
    exact .inr hname.symm

theorem endsIn_simple (name : String) : EndsIn name (simple name) := by
  rcases eq_inside_qualifier name with ⟨h, -⟩ | h
  · exact .inl h
  · exact .inr ⟨qualifier name, h⟩

theorem length_qualifier_lt {name : String} (h : name ≠ "") :
    (qualifier name).length < name.length := by
  rcases eq_inside_qualifier name with ⟨-, hq⟩ | hq
  · rw [hq, String.length_empty]
    exact Nat.pos_of_ne_zero fun hzero => h (String.length_eq_zero_iff.1 hzero)
  · have hlength := congrArg String.length hq
    simp only [inside, String.length_append] at hlength
    have hdot : ".".length = 1 := rfl
    omega

theorem length_le_qualifier_inside (outer name : String) :
    outer.length ≤ (qualifier (inside outer name)).length := by
  have hq : qualifier (inside outer name) =
      joinWith "." (segments outer ++ (segments name).dropLast) := by
    rw [qualifier, segments_inside, List.dropLast_append_of_ne_nil (segments_ne_nil name)]
  by_cases hfront : (segments name).dropLast = []
  · have houter : qualifier (inside outer name) = outer := by
      rw [hq, hfront, List.append_nil, FileName.joinWith_segments]
    exact Nat.le_of_eq (congrArg String.length houter).symm
  · rw [hq, joinWith_append (segments_ne_nil outer) hfront, FileName.joinWith_segments]
    simp only [inside, String.length_append]
    omega

end PackageModularity.Name

import PackageModularity.Files.Path

/-!
The text of a folder joined with the name of an entry is the folder's path with one component more.
-/
namespace PackageModularity

theorem splitOnChar_of_not_mem {sep : Char} {cs : List Char} (h : sep ∉ cs) :
    splitOnChar sep cs = [cs] := by
  induction cs with
  | nil => rfl
  | cons c r ih =>
    have hc : c ≠ sep := fun e => h (e ▸ List.mem_cons_self)
    have hr : sep ∉ r := fun e => h (List.mem_cons_of_mem c e)
    simp [splitOnChar, hc, ih hr]

theorem splitOnChar_append (sep : Char) (xs ys : List Char) :
    splitOnChar sep (xs ++ sep :: ys) = splitOnChar sep xs ++ splitOnChar sep ys := by
  induction xs with
  | nil => simp [splitOnChar]
  | cons c r ih =>
    by_cases hc : c = sep
    · simp [splitOnChar, hc, ih]
    · obtain ⟨p, ps, hp⟩ := List.exists_cons_of_ne_nil (splitOnChar_ne_nil sep r)
      simp [splitOnChar, hc, ih, hp]

theorem not_mem_of_mem_splitOnChar {sep : Char} {cs piece : List Char}
    (h : piece ∈ splitOnChar sep cs) : sep ∉ piece := by
  induction cs generalizing piece with
  | nil =>
    simp only [splitOnChar, List.mem_singleton] at h
    simp [h]
  | cons c r ih =>
    by_cases hc : c = sep
    · simp only [splitOnChar, hc, if_true, List.mem_cons] at h
      rcases h with rfl | h
      · simp
      · exact ih h
    · obtain ⟨p, ps, hp⟩ := List.exists_cons_of_ne_nil (splitOnChar_ne_nil sep r)
      simp only [splitOnChar, hc, if_false, hp, List.mem_cons] at h
      rcases h with rfl | h
      · have hr := ih (hp ▸ List.mem_cons_self)
        simp [hr, Ne.symm hc]
      · exact ih (hp ▸ List.mem_cons_of_mem _ h)

structure IsPiece (name : String) : Prop where
  nonempty : name ≠ ""
  notCurrent : name ≠ "."
  notParent : name ≠ ".."
  noSlash : '/' ∉ name.toList

/-- A name that an entry of a folder can have. -/
structure IsEntryName (name : String) : Prop extends IsPiece name where
  noNul : '\x00' ∉ name.toList

instance (name : String) : Decidable (IsPiece name) :=
  decidable_of_iff (name ≠ "" ∧ name ≠ "." ∧ name ≠ ".." ∧ '/' ∉ name.toList)
    ⟨fun ⟨a, b, c, d⟩ => ⟨a, b, c, d⟩, fun ⟨a, b, c, d⟩ => ⟨a, b, c, d⟩⟩

instance (name : String) : Decidable (IsEntryName name) :=
  decidable_of_iff (IsPiece name ∧ '\x00' ∉ name.toList)
    ⟨fun ⟨a, b⟩ => ⟨a, b⟩, fun ⟨a, b⟩ => ⟨a, b⟩⟩

namespace Path

theorem component?_toList {name : String} (h : IsPiece name) :
    component? name.toList = some (.name name) := by
  have h1 : name.toList ≠ [] := fun e => h.nonempty (String.toList_inj.1 e)
  have h2 : name.toList ≠ ['.'] := fun e => h.notCurrent (String.toList_inj.1 e)
  have h3 : name.toList ≠ ['.', '.'] := fun e => h.notParent (String.toList_inj.1 e)
  simp [component?, h1, h2, h3]

theorem components_ofText (text : String) :
    (ofText text).components =
      (if text.toList.head? = some '/' then [.root]
        else if (splitOnChar '/' text.toList).head? = some ['.'] then [.current] else []) ++
      (splitOnChar '/' text.toList).filterMap component? := by
  unfold ofText
  extract_lets pieces rest
  split
  · rename_i tail htext
    simp [htext, rest, pieces]
  · rename_i pieces' tail hpieces hslash
    have hhead : text.toList.head? ≠ some '/' := by
      intro e
      obtain ⟨r, hr⟩ := List.head?_eq_some_iff.1 e
      exact hslash r hr
    have hfirst : (splitOnChar '/' text.toList).head? = some ['.'] := by
      rw [show splitOnChar '/' text.toList = ['.'] :: tail from hpieces]
      rfl
    simp [hhead, hfirst, rest, pieces]
  · rename_i hslash hdot
    have hhead : text.toList.head? ≠ some '/' := by
      intro e
      obtain ⟨r, hr⟩ := List.head?_eq_some_iff.1 e
      exact hslash r hr
    have hfirst : (splitOnChar '/' text.toList).head? ≠ some ['.'] := by
      intro e
      obtain ⟨r, hr⟩ := List.head?_eq_some_iff.1 e
      exact hdot r hr
    simp [hhead, hfirst, rest, pieces]

theorem components_append {base : List Char} (hbase : base ≠ []) (more : List Char) :
    (ofText (String.ofList (base ++ '/' :: more))).components =
      (ofText (String.ofList base)).components ++
        (splitOnChar '/' more).filterMap component? := by
  have hhead : (base ++ '/' :: more).head? = base.head? := by
    cases base with
    | nil => exact absurd rfl hbase
    | cons c r => rfl
  have hfirst : (splitOnChar '/' base ++ splitOnChar '/' more).head? =
      (splitOnChar '/' base).head? := by
    cases hp : splitOnChar '/' base with
    | nil => exact absurd hp (splitOnChar_ne_nil _ _)
    | cons p ps => rfl
  rw [components_ofText, components_ofText, String.toList_ofList, String.toList_ofList,
    splitOnChar_append, hhead, hfirst, List.filterMap_append, List.append_assoc]

theorem components_append_slash (front more : List Char) :
    (ofText (String.ofList (front ++ '/' :: more))).components =
      (ofText (String.ofList (front ++ ['/']))).components ++
        (splitOnChar '/' more).filterMap component? := by
  by_cases hfront : front = []
  · subst hfront
    simp [components_ofText, splitOnChar, component?]
  · rw [components_append hfront, components_append hfront]
    simp [splitOnChar, component?]

/-- Joining a name to a text appends one component to its path. -/
theorem components_joinText (base : String) {name : String} (h : IsPiece name) :
    (ofText (joinText base name)).components = (ofText base).components ++ [.name name] := by
  have hslash : name.toList.head? ≠ some '/' := fun e => h.noSlash (List.mem_of_mem_head? e)
  have hpieces : (splitOnChar '/' name.toList).filterMap component? = [.name name] := by
    simp [splitOnChar_of_not_mem h.noSlash, component?_toList h]
  rw [joinText, if_neg hslash]
  by_cases hempty : base.toList = []
  · have hbase : base = "" := String.toList_inj.1 hempty
    have hdot : (splitOnChar '/' name.toList).head? ≠ some ['.'] := by
      intro e
      rw [splitOnChar_of_not_mem h.noSlash, List.head?_cons, Option.some.injEq] at e
      exact h.notCurrent (String.toList_inj.1 e)
    subst hbase
    simp [components_ofText, hslash, hdot, hpieces, splitOnChar, component?]
  · by_cases hlast : base.toList.getLast? = some '/'
    · obtain ⟨front, hfront⟩ := List.getLast?_eq_some_iff.1 hlast
      have hbase : base = String.ofList (front ++ ['/']) := String.toList_inj.1 (by simp [hfront])
      have hjoined : base ++ name = String.ofList (front ++ '/' :: name.toList) :=
        String.toList_inj.1 (by simp [hfront])
      rw [if_pos (Or.inr hlast), hjoined, components_append_slash, hpieces, ← hbase]
    · rw [if_neg (not_or.2 ⟨hempty, hlast⟩)]
      have hbase := components_append hempty name.toList
      rw [hpieces, String.ofList_toList] at hbase
      rw [← hbase]
      congr 2
      exact String.toList_inj.1 (by simp)

end Path

end PackageModularity

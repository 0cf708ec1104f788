import PackageModularity.Proofs.Resolution.DeclaredTypes
import PackageModularity.Proofs.Text.DottedName
import PackageModularity.Source.Header

/-!
What a written name means is a type of that name: its qualified name ends in the name as written.
For an imported type this rests on how a file's imports are read.
-/
namespace PackageModularity

/-- Every single import stands under the last segment of the name it imports. -/
def FileContext.ImportsBySimpleName (c : FileContext) : Prop :=
  ∀ name q, c.singleImports.get? name = some q → Name.simple q = name

namespace FileContext

theorem importsBySimpleName_add {c : FileContext} (h : c.ImportsBySimpleName) (t : SyntaxTree) :
    (c.add t).ImportsBySimpleName := by
  rw [add]
  split
  · exact h
  · rw [addImport]
    split
    · exact h
    · rename_i q _
      split
      · exact h
      · split
        · exact h
        · intro name q' hq'
          rw [Dict.get?_insert] at hq'
          split at hq'
          · rename_i hname
            rw [hname, ← Option.some.inj hq']
          · exact h name q' hq'
  · exact h

theorem importsBySimpleName_ofTree (root : SyntaxTree) : (ofTree root).ImportsBySimpleName := by
  have hfold : ∀ (ts : List SyntaxTree) (c : FileContext), c.ImportsBySimpleName →
      (ts.foldl add c).ImportsBySimpleName := by
    intro ts
    induction ts with
    | nil => exact fun _ h => h
    | cons t ts ih => exact fun c h => ih (c.add t) (importsBySimpleName_add h t)
  exact hfold root.children default fun name q h => by simp [default, Dict.get?_empty] at h

end FileContext

def TypeRef.qualifiedName : TypeRef → String
  | .known s => s.qualifiedName
  | .library q => q

namespace TypeTable

variable {t : TypeTable} {c : FileContext}

theorem qualifiedName_of_standsFor (hk : t.Keyed) {r : TypeRef} {q : String}
    (h : t.StandsFor r q) : r.qualifiedName = q := by
  cases r with
  | known s => exact hk q s h
  | library q' => exact h

theorem endsIn_of_simpleType? (hk : t.Keyed) (hc : c.ImportsBySimpleName) {name : String}
    {outer : List String} {r : TypeRef} (h : t.simpleType? name c outer = some r) :
    Name.EndsIn r.qualifiedName name := by
  obtain ⟨q, hq, hends | himport⟩ := simpleType?_found h
  · rwa [qualifiedName_of_standsFor hk hq]
  · rw [qualifiedName_of_standsFor hk hq, ← hc name q himport]
    exact Name.endsIn_simple q

theorem qualifiedName_of_memberType? (hk : t.Keyed) {outer r : TypeRef} {rest : String}
    (h : t.memberType? outer rest = some r) :
    r.qualifiedName = Name.inside outer.qualifiedName rest := by
  cases outer with
  | known o =>
    obtain ⟨s, hs, rfl⟩ := Option.map_eq_some_iff.1 h
    exact hk _ s hs
  | library q =>
    obtain rfl := Option.some.inj h
    rfl

theorem endsIn_of_type? (hk : t.Keyed) (hc : c.ImportsBySimpleName) {name : String}
    {outer : List String} {r : TypeRef} (h : t.type? name c outer = some r) :
    Name.EndsIn r.qualifiedName name := by
  rw [type?] at h
  split at h
  · exact endsIn_of_simpleType? hk hc h
  · rename_i head rest hsplit
    obtain ⟨-, rfl⟩ := Name.eq_of_splitFirst? hsplit
    split at h
    · rename_i o ho
      rw [qualifiedName_of_memberType? hk h]
      exact (endsIn_of_simpleType? hk hc ho).inside rest
    · obtain ⟨s, hs, rfl⟩ := Option.map_eq_some_iff.1 h
      exact .inl (hk _ s hs)

/-- A name written in a file that means a type ends that type's qualified name, and a type of the
sources is the one the table has under this name. -/
theorem ofUnits_type?_namesake (us : List SourceUnit) (root : SyntaxTree) (enclosing : List String)
    (name : String) {r : TypeRef}
    (h : (ofUnits us).type? name (FileContext.ofTree root) enclosing = some r) :
    (r.qualifiedName = name ∨ ∃ front, r.qualifiedName = front ++ "." ++ name) ∧
    ∀ s, r = .known s → (ofUnits us).get? r.qualifiedName = some s := by
  have hk := keyed_ofUnits us
  refine ⟨endsIn_of_type? hk (FileContext.importsBySimpleName_ofTree root) h, ?_⟩
  rintro s rfl
  exact hk.get? (declares_of_type? h)

def boxImport : SyntaxTree :=
  .node .other .none none [.node .importDeclaration .none (some "import lib.Box;")
    [.node .scopedIdentifier .none (some "lib.Box") []]]

def boxFile : SourceUnit where
  path := Path.ofText "lib/Box.java"
  context := ⟨some "lib", Dict.empty, []⟩
  types := [⟨"lib.Box", [], [], Dict.empty, Dict.empty⟩,
    ⟨"lib.Box.Lid", ["lib.Box"], [], Dict.empty, Dict.empty⟩]
  scopes := [Scope.empty]
  references := []

/-- The import leads to the source type, and below it to the one inside. -/
theorem type?_namesake_lid : ∃ s,
    (ofUnits [boxFile]).type? "Box.Lid" (FileContext.ofTree boxImport) ["app.Use"] =
      some (.known s) ∧
    s.qualifiedName = "lib.Box.Lid" ∧
    (s.qualifiedName = "Box.Lid" ∨ ∃ front, s.qualifiedName = front ++ "." ++ "Box.Lid") ∧
    (ofUnits [boxFile]).get? s.qualifiedName = some s := by
  have htype : (ofUnits [boxFile]).type? "Box.Lid" (FileContext.ofTree boxImport) ["app.Use"] =
      some (.known
        ⟨⟨"lib.Box.Lid", ["lib.Box"], [], Dict.empty, Dict.empty⟩, boxFile.context⟩) := rfl
  obtain ⟨hname, hget⟩ := ofUnits_type?_namesake [boxFile] boxImport ["app.Use"] "Box.Lid" htype
  exact ⟨_, htype, rfl, hname, hget _ rfl⟩

end TypeTable

end PackageModularity

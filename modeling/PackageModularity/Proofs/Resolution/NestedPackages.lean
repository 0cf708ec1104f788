import PackageModularity.Proofs.Resolution.DeclaredTypes
import PackageModularity.Proofs.Source.NestedTypes
import PackageModularity.Resolution.UnitEdges

/-!
A nested type of the sources lies in the package of its outer type, as long as packages and types
share no names. For library types it does not: what stands before the last dot of a nested one is
its outer type, and that is taken for a package.
-/
namespace PackageModularity

/-- No unit's package is a type's qualified name or goes on from one. -/
def PackagesApart (us : List SourceUnit) : Prop :=
  ∀ u ∈ us, ∀ p ∈ u.context.package, ∀ v ∈ us, ∀ d ∈ v.types, ¬ Name.Extends p d.qualifiedName

instance (us : List SourceUnit) : Decidable (PackagesApart us) :=
  inferInstanceAs (Decidable (∀ u ∈ us, ∀ p ∈ u.context.package, ∀ v ∈ us, ∀ d ∈ v.types,
    ¬ Name.Extends p d.qualifiedName))

namespace PackagesApart

variable {us : List SourceUnit} {u v : SourceUnit}

theorem not_prefix (h : PackagesApart us) (hu : u ∈ us) (hv : v ∈ us) {d : TypeDecl}
    (hd : d ∈ v.types) : ¬ Name.segments d.qualifiedName <+: u.context.packageSegments := by
  intro hpre
  rw [FileContext.packageSegments] at hpre
  split at hpre
  · exact Name.segments_ne_nil _ (List.prefix_nil.1 hpre)
  · rename_i hne
    obtain ⟨p, hp⟩ : ∃ p, u.context.package = some p := by
      cases hp : u.context.package with
      | none => exact absurd (by rw [FileContext.packageName, hp]; rfl) hne
      | some p => exact ⟨p, rfl⟩
    have hname : u.context.packageName = p := by rw [FileContext.packageName, hp]; rfl
    exact h u hu p hp v hv d hd (Name.extends_iff_prefix.2 (hname ▸ hpre))

theorem eq_of_prefix (h : PackagesApart us) (hu : u ∈ us) (hv : v ∈ us) {d : TypeDecl}
    (hd : Rooted u.context u.types d)
    (hle : u.context.packageSegments <+: v.context.packageSegments)
    (hin : v.context.packageSegments <+: Name.segments d.qualifiedName) :
    u.context.packageSegments = v.context.packageSegments := by
  obtain ⟨more, hmore⟩ := hle
  by_cases hempty : more = []
  · rw [← hmore, hempty, List.append_nil]
  · obtain ⟨names, hnames, -, hfront⟩ := hd
    rw [← hmore, hnames, List.prefix_append_right_inj] at hin
    obtain ⟨e, he, hes⟩ := hfront more hempty hin
    have hpre : Name.segments e.qualifiedName <+: v.context.packageSegments := by
      rw [hes, hmore]
    exact absurd hpre (h.not_prefix hv hu he)

theorem packageSegments_eq (h : PackagesApart us) (hread : ∀ u ∈ us, u.IsRead) (hu : u ∈ us)
    (hv : v ∈ us) {d e : TypeDecl} (hd : d ∈ u.types) (he : e ∈ v.types)
    (hpre : Name.segments d.qualifiedName <+: Name.segments e.qualifiedName) :
    u.context.packageSegments = v.context.packageSegments := by
  have hrd : Rooted u.context u.types d := (hread u hu).rooted hd
  have hre : Rooted v.context v.types e := (hread v hv).rooted he
  have hud : u.context.packageSegments <+: Name.segments d.qualifiedName := by
    obtain ⟨names, hnames, -⟩ := hrd
    exact hnames ▸ List.prefix_append _ _
  have hve : v.context.packageSegments <+: Name.segments e.qualifiedName := by
    obtain ⟨names, hnames, -⟩ := hre
    exact hnames ▸ List.prefix_append _ _
  rcases List.prefix_or_prefix_of_prefix (hud.trans hpre) hve with huv | hvu
  · -- the longer package stops before the outer type, or it would go on from it
    rcases List.prefix_or_prefix_of_prefix hve hpre with hin | hin
    · exact h.eq_of_prefix hu hv hrd huv hin
    · exact absurd hin (h.not_prefix hv hu hd)
  · exact (h.eq_of_prefix hv hu hre hvu (hud.trans hpre)).symm

end PackagesApart

theorem FileContext.packageName_eq_of_segments {c c' : FileContext}
    (h : c.packageSegments = c'.packageSegments) : c.packageName = c'.packageName := by
  rw [packageSegments, packageSegments] at h
  split at h
  · rename_i hc
    split at h
    · rename_i hc'
      rw [hc, hc']
    · exact absurd h.symm (Name.segments_ne_nil _)
  · split at h
    · exact absurd h (Name.segments_ne_nil _)
    · exact Name.eq_of_segments_eq h

namespace TypeTable

variable {us : List SourceUnit} {c : FileContext} {enclosing : List String} {head rest : String}

theorem exists_unit_of_declares {s : TypeSymbol} (h : (ofUnits us).Declares s) :
    ∃ u ∈ us, s.decl ∈ u.types ∧ s.context = u.context := by
  obtain ⟨q, hq⟩ := h
  rw [get?_ofUnits] at hq
  obtain ⟨e, he, rfl⟩ := List.mem_map.1 (List.mem_of_getLast? hq)
  obtain ⟨u, hu, hmem⟩ := List.mem_flatMap.1 (List.mem_filter.1 he).1
  obtain ⟨d, hd, rfl⟩ := List.mem_map.1 hmem
  exact ⟨u, hu, hd, rfl⟩

theorem type?_inside {t : TypeTable} (hhead : '.' ∉ head.toList) {outer : TypeRef}
    (ho : t.type? head c enclosing = some outer) :
    t.type? (Name.inside head rest) c enclosing = t.memberType? outer rest := by
  have hsimple : t.simpleType? head c enclosing = some outer := by
    rw [type?, Name.splitFirst?, Name.segments_of_no_dot hhead] at ho
    exact ho
  simp only [type?, Name.splitFirst?_inside hhead, hsimple]

theorem package_of_memberType? (hread : ∀ u ∈ us, u.IsRead) (hapart : PackagesApart us)
    {s s' : TypeSymbol} (hs : (ofUnits us).Declares s)
    (h : (ofUnits us).memberType? (.known s) rest = some (.known s')) : s'.package = s.package := by
  have hname : s'.qualifiedName = Name.inside s.qualifiedName rest :=
    keyed_ofUnits us _ _ (known_of_map h)
  obtain ⟨u, hu, hd, hcu⟩ := exists_unit_of_declares hs
  obtain ⟨v, hv, he, hcv⟩ := exists_unit_of_declares (declares_of_memberType? h)
  have hpre : Name.segments s.decl.qualifiedName <+: Name.segments s'.decl.qualifiedName := by
    show _ <+: Name.segments s'.qualifiedName
    rw [hname, Name.segments_inside]
    exact List.prefix_append _ _
  have hsegments := hapart.packageSegments_eq hread hu hv hd he hpre
  rw [TypeSymbol.package, TypeSymbol.package, hcu, hcv]
  exact (FileContext.packageName_eq_of_segments hsegments).symm

theorem edge?_supertype_congr {t : TypeTable} {name name' : String}
    (h : (t.type? name c enclosing).map TypeRef.declaration =
      (t.type? name' c enclosing).map TypeRef.declaration)
    (r : Registry) (source : String) {u : SourceUnit} {n : Nat} (hc : u.context = c)
    (hs : u.scopes[n]?.map Scope.enclosing = some enclosing) :
    r.edge? t.resolve source u ⟨.supertype name, n⟩ =
      r.edge? t.resolve source u ⟨.supertype name', n⟩ := by
  obtain ⟨scope, hscope, rfl⟩ := Option.map_eq_some_iff.1 hs
  have hresolve : t.resolve u ⟨.supertype name, n⟩ = t.resolve u ⟨.supertype name', n⟩ := by
    simp only [resolve, hscope, hc, Option.bind_some, mentionTarget?, writtenType?, h]
  rw [Registry.edge?, Registry.edge?, hresolve]
  rfl

/-- A nested type of the sources lies where its outer type does, so extending either gives the same
edge. A nested library type is never taken to lie in the package of its outer type. -/
theorem nested_type_package (hread : ∀ u ∈ us, u.IsRead) (hapart : PackagesApart us)
    (hhead : '.' ∉ head.toList) {outer nested : TypeRef}
    (ho : (ofUnits us).type? head c enclosing = some outer)
    (hn : (ofUnits us).type? (Name.inside head rest) c enclosing = some nested) :
    (∀ s, outer = .known s → nested.declaration = outer.declaration ∧
      ∀ (r : Registry) (source : String) (u : SourceUnit) (n : Nat), u.context = c →
        u.scopes[n]?.map Scope.enclosing = some enclosing →
        r.edge? (ofUnits us).resolve source u ⟨.supertype (Name.inside head rest), n⟩ =
          r.edge? (ofUnits us).resolve source u ⟨.supertype head, n⟩) ∧
    ∀ q, outer = .library q → q ≠ "" →
      nested.declaration.package ≠ outer.declaration.package := by
  have hmember : (ofUnits us).memberType? outer rest = some nested := by
    rw [← type?_inside hhead ho, hn]
  constructor
  · rintro s rfl
    obtain ⟨s', -, rfl⟩ := Option.map_eq_some_iff.1 hmember
    have hpackage : s'.package = s.package :=
      package_of_memberType? hread hapart (declares_of_type? ho) hmember
    have hdecl : (TypeRef.known s').declaration = (TypeRef.known s).declaration := by
      rw [TypeRef.declaration, TypeRef.declaration, hpackage]
    refine ⟨hdecl, fun r source u n hc hscope => edge?_supertype_congr ?_ r source hc hscope⟩
    rw [ho, hn, Option.map_some, Option.map_some, hdecl]
  · -- the package of a library type is its name up to the last dot, and the nested name is longer
    rintro q rfl hq hpackage
    obtain rfl := Option.some.inj hmember
    have hlonger := Name.length_le_qualifier_inside q rest
    have hshorter := Name.length_qualifier_lt hq
    have hequal : Name.qualifier (Name.inside q rest) = Name.qualifier q := hpackage
    rw [hequal] at hlonger
    omega

def classTree (name : String) (supertype : Option String) (inside : List SyntaxTree) :
    SyntaxTree :=
  .node .typeDeclaration .none none
    (.node .identifier .name (some name) [] ::
      supertype.toList.map (fun s =>
        .node .superclass .none none [.node .scopedTypeIdentifier .none (some s) []]) ++
      [.node .other .body none inside])

def packageOfTree (name : String) : SyntaxTree :=
  .node .packageDeclaration .none none [.node .identifier .none (some name) []]

/-- `package lib; class Outer { class Inner {} }` -/
def outerFile : SourceUnit :=
  .ofTree defaultMaxDepth (.ofText "lib/Outer.java") (.node .other .none none
    [packageOfTree "lib", classTree "Outer" none [classTree "Inner" none []]])

def extendingFile : SourceUnit :=
  .ofTree defaultMaxDepth (.ofText "app/Plain.java") (.node .other .none none
    [packageOfTree "app",
      .node .importDeclaration .none none [.node .scopedIdentifier .none (some "lib.Outer") []],
      classTree "Plain" (some "Outer") [], classTree "Deep" (some "Outer.Inner") []])

theorem isRead_outerFile : outerFile.IsRead := ⟨_, _, _, by decide +kernel, rfl⟩

theorem isRead_extendingFile : extendingFile.IsRead := ⟨_, _, _, by decide +kernel, rfl⟩

/-- With the library at hand both classes extend a type of its package. -/
theorem nested_type_package_inner :
    PackagesApart [outerFile, extendingFile] ∧
    extendingFile.references = [⟨.supertype "Outer", 1⟩, ⟨.supertype "Outer.Inner", 3⟩] ∧
    (∃ s s', (ofUnits [outerFile, extendingFile]).type? "Outer" extendingFile.context [] =
        some (.known s) ∧
      (ofUnits [outerFile, extendingFile]).type? "Outer.Inner" extendingFile.context [] =
        some (.known s') ∧
      (TypeRef.known s').declaration = (TypeRef.known s).declaration) ∧
    (Registry.ofPackages ["app", "lib"]).edgesOf .declared
      (ofUnits [outerFile, extendingFile]).resolve extendingFile =
        [⟨"app", "lib", .inherits⟩, ⟨"app", "lib", .inherits⟩] := by
  have hread : ∀ u ∈ [outerFile, extendingFile], u.IsRead := by
    simp only [List.mem_cons, List.not_mem_nil, or_false, forall_eq_or_imp, forall_eq]
    exact ⟨isRead_outerFile, isRead_extendingFile⟩
  have hapart : PackagesApart [outerFile, extendingFile] := by decide +kernel
  refine ⟨hapart, by decide +kernel, ?_, by decide +kernel⟩
  have ho : (ofUnits [outerFile, extendingFile]).type? "Outer" extendingFile.context [] =
    some (.known ⟨⟨"lib.Outer", [], [], Dict.empty, Dict.empty⟩, outerFile.context⟩) := rfl
  have hn : (ofUnits [outerFile, extendingFile]).type? (Name.inside "Outer" "Inner")
      extendingFile.context [] = some (.known
        ⟨⟨"lib.Outer.Inner", ["lib.Outer"], [], Dict.empty, Dict.empty⟩, outerFile.context⟩) := rfl
  obtain ⟨hsource, -⟩ := nested_type_package hread hapart (by decide) ho hn
  exact ⟨_, _, ho, hn, (hsource _ rfl).1⟩

/-- Without it only the class that extends the outer type does: the nested type is taken to lie in
a package `lib.Outer`. -/
theorem nested_library_type_package :
    extendingFile.IsRead ∧ PackagesApart [extendingFile] ∧
    (ofUnits [extendingFile]).type? "Outer" extendingFile.context [] =
      some (.library "lib.Outer") ∧
    (TypeRef.library "lib.Outer").declaration.package = "lib" ∧
    (ofUnits [extendingFile]).type? "Outer.Inner" extendingFile.context [] =
      some (.library "lib.Outer.Inner") ∧
    (TypeRef.library "lib.Outer.Inner").declaration.package = "lib.Outer" ∧
    extendingFile.references = [⟨.supertype "Outer", 1⟩, ⟨.supertype "Outer.Inner", 3⟩] ∧
    (Registry.ofPackages ["app", "lib"]).edgesOf .declared
      (ofUnits [extendingFile]).resolve extendingFile = [⟨"app", "lib", .inherits⟩] :=
  ⟨isRead_extendingFile, by decide +kernel, rfl, by decide +kernel, rfl, by decide +kernel,
    by decide +kernel, by decide +kernel⟩

end TypeTable

end PackageModularity

import PackageModularity.Project.Run
import PackageModularity.Proofs.Coupling.Incidence
import PackageModularity.Proofs.Package.FoundPackages
import PackageModularity.Proofs.Project.ParsedFiles
import PackageModularity.Proofs.Resolution.NoPhantomEdges

/-!
Packages named by folders. The packages of a project are exactly those that its source files lie in,
so a unit that takes its package from its folder starts its edges inside the package set.
-/
namespace PackageModularity

namespace ProjectIndex

variable {parse : Parser} {fs : FileSystem} {c : Config} {filter : SourceFilter} {root : String}
  {i : ProjectIndex}

theorem exists_package_of_unit (h : ProjectIndex.of parse fs c filter root = .ok i)
    {u : SourceUnit} (hu : u ∈ i.units) :
    ∃ p, i.registry.packageOf? u.path = some p ∧ i.registry.contains p = true := by
  simp only [ProjectIndex.of, bind, Except.bind] at h
  split at h
  · simp at h
  · rename_i found hfound
    obtain ⟨r, files⟩ := found
    obtain rfl := Except.ok.inj h
    obtain ⟨hnames, hcontains⟩ := Registry.contains_discover hfound
    have hof := accounts_ofFiles parse r files
    rw [hof.units] at hu
    obtain ⟨file, hfile, hunit⟩ := List.mem_filterMap.1 hu
    have hp := r.packageOf?_append (hnames file hfile)
    rw [hof.registry]
    exact ⟨_, path_of_unit? hunit ▸ hp, (hcontains _).2 ⟨file, hfile, hp⟩⟩

theorem of_mem_unitEdges {u : SourceUnit} {e : Edge} (h : e ∈ i.unitEdges c u) :
    i.registry.sourcePackage? c.sourcePackage u = some e.source ∧
      i.registry.contains e.target = true := by
  rw [unitEdges, Registry.edgesOf] at h
  cases hs : i.registry.sourcePackage? c.sourcePackage u with
  | none => simp [hs] at h
  | some source =>
    rw [hs] at h
    obtain ⟨ref, -, href⟩ := List.mem_filterMap.1 h
    obtain ⟨d, -, -, hin, rfl⟩ := Registry.edge?_eq_some href
    exact ⟨rfl, hin⟩

theorem edges_congr_policy {policy : SourcePackage}
    (h : ∀ u ∈ i.units, i.registry.sourcePackage? policy u =
      i.registry.sourcePackage? c.sourcePackage u) :
    i.edges { c with sourcePackage := policy } = i.edges c := by
  have hunits : i.units.flatMap (i.unitEdges { c with sourcePackage := policy }) =
      i.units.flatMap (i.unitEdges c) := by
    refine List.flatMap_congr fun u hu => ?_
    simp only [unitEdges, Registry.edgesOf, h u hu]
  rw [edges, edges, hunits]

end ProjectIndex

namespace Scorer

theorem of_eq_ok_iff {c : Config} {parse : Parser} {s : Scorer} : Scorer.of c parse = .ok s ↔
    ∃ filter, SourceFilter.ofConfig c = .ok filter ∧ s = ⟨c, filter, parse⟩ := by
  cases hf : SourceFilter.ofConfig c with
  | error e => simp [Scorer.of, hf, bind, Except.bind]
  | ok filter => simp [Scorer.of, hf, bind, Except.bind, eq_comm]

/-- With sources named by their folders both ends of every edge are packages of the project, so the
counts at the packages add up to twice the edges less the loops. Where every file declares the
package of its folder, the declared packages give the same edges. -/
theorem ends_canonical_of_directory {c : Config} {parse : Parser} {s : Scorer} {fs : FileSystem}
    {root : String} {i : ProjectIndex} (hpolicy : c.sourcePackage = .directory)
    (hs : Scorer.of c parse = .ok s) (hi : s.index fs root = .ok i) :
    (∀ u ∈ i.units, ∃ p, i.registry.sourcePackage? c.sourcePackage u = some p ∧
      i.registry.contains p = true) ∧
    (∀ u ∈ i.units, ∀ e ∈ i.unitEdges c u,
      i.registry.contains e.source = true ∧ i.registry.contains e.target = true) ∧
    (∀ p ∈ (i.edges c).pairs,
      i.registry.contains p.1.low = true ∧ i.registry.contains p.1.high = true) ∧
    (∀ m, (s.score fs root).2 = .ok m →
      m.internal ≤ m.edges ∧ m.incidenceSum = 2 * m.edges - m.internal) ∧
    ((∀ u ∈ i.units, ∃ p, u.context.package = some p ∧ i.registry.packageOf? u.path = some p) →
      ∃ d, Scorer.of { c with sourcePackage := .declared } parse = .ok d ∧
        d.index fs root = .ok i ∧ i.edges d.config = i.edges c) := by
  obtain ⟨filter, hfilter, rfl⟩ := of_eq_ok_iff.1 hs
  have hfolder : ∀ u,
      i.registry.sourcePackage? c.sourcePackage u = i.registry.packageOf? u.path := by
    intro u
    rw [hpolicy]
    rfl
  have hunits : ∀ u ∈ i.units, ∃ p, i.registry.sourcePackage? c.sourcePackage u = some p ∧
      i.registry.contains p = true := by
    intro u hu
    rw [hfolder]
    exact ProjectIndex.exists_package_of_unit hi hu
  have hedges : ∀ u ∈ i.units, ∀ e ∈ i.unitEdges c u,
      i.registry.contains e.source = true ∧ i.registry.contains e.target = true := by
    intro u hu e he
    obtain ⟨hsource, htarget⟩ := ProjectIndex.of_mem_unitEdges he
    obtain ⟨p, hp, hin⟩ := hunits u hu
    rw [hp] at hsource
    exact ⟨Option.some.inj hsource ▸ hin, htarget⟩
  have hrec := EdgeMultiset.records_ofList (i.units.flatMap (i.unitEdges c))
  have hwithin : ∀ e ∈ i.units.flatMap (i.unitEdges c), e.within i.registry.packages = true := by
    intro e he
    obtain ⟨u, hu, heu⟩ := List.mem_flatMap.1 he
    exact Bool.and_eq_true_iff.2 (hedges u hu e heu)
  refine ⟨hunits, hedges, fun p hp => hrec.contains_of_mem_pairs hwithin hp, ?_, ?_⟩
  · intro m hm
    rw [Scorer.score, hi] at hm
    exact Modularity.incidenceSum_of_within hrec hwithin hm
  · intro hdeclared
    refine ⟨⟨{ c with sourcePackage := .declared }, filter, parse⟩,
      of_eq_ok_iff.2 ⟨filter, hfilter, rfl⟩, hi, ProjectIndex.edges_congr_policy fun u hu => ?_⟩
    obtain ⟨p, hdecl, hp⟩ := hdeclared u hu
    rw [hfolder, hp]
    exact hdecl

def crateText : String := "package x; import y.Box; class Crate extends Box {}"

def boxText : String := "package y; class Box {}"

def packageTree (name : String) : SyntaxTree :=
  .node .packageDeclaration .none (some ("package " ++ name ++ ";"))
    [.node .identifier .none (some name) []]

def crateTree : SyntaxTree :=
  .node .other .none (some crateText) [packageTree "x",
    .node .importDeclaration .none (some "import y.Box;") [
      .node .scopedIdentifier .none (some "y.Box") [
        .node .identifier .none (some "y") [], .node .identifier .name (some "Box") []]],
    .node .typeDeclaration .none (some "class Crate extends Box {}") [
      .node .identifier .name (some "Crate") [],
      .node .superclass .none (some "extends Box") [.node .typeIdentifier .none (some "Box") []],
      .node .other .body (some "{}") []]]

def boxTree : SyntaxTree :=
  .node .other .none (some boxText) [packageTree "y",
    .node .typeDeclaration .none (some "class Box {}") [
      .node .identifier .name (some "Box") [], .node .other .body (some "{}") []]]

def crateParser : Parser := fun text =>
  if text = crateText then some crateTree else if text = boxText then some boxTree else none

def crateFiles : List (String × Entry) :=
  [("src", .folder [("x", .folder [("Crate.java", .file (Utf8.encode crateText))]),
    ("y", .folder [("Box.java", .file (Utf8.encode boxText))])])]

def crates : FileSystem := ⟨.folder [("p", .folder crateFiles)], []⟩

def crateConfig : Config :=
  { Config.default with sourceRoots := ["src"], sourcePackage := .directory }

def crateIndex : ProjectIndex :=
  .ofFiles crateParser ((Entry.folder crateFiles).files.foldl (fun r f => r.addPackage f.1)
    ⟨.ofText "p", ".", [.ofText "src"], .empty⟩) (Entry.folder crateFiles).files

theorem index_crates : ∃ s, Scorer.of crateConfig crateParser = .ok s ∧
    s.index crates "p" = .ok crateIndex := by
  have haccepted : (SourceFilter.ofConfig crateConfig).toOption.any (fun f =>
      ((Entry.folder crateFiles).files.filter fun e => f.accepts (Path.ofNames e.1)) =
        (Entry.folder crateFiles).files) = true := by decide +kernel
  have hentry : crates.entry (.ofText "p") = .ok (.folder crateFiles) := rfl
  have hinput : Registry.isStandardInput (.ofText "p") = false := by decide
  cases hf : SourceFilter.ofConfig crateConfig with
  | error e => simp [hf, Except.toOption] at haccepted
  | ok f =>
    rw [hf] at haccepted
    have hfiles :
        Registry.sourceFiles f (.folder crateFiles) = (Entry.folder crateFiles).files := by
      rw [Registry.sourceFiles, of_decide_eq_true haccepted]
      exact List.mergeSort_of_pairwise (by decide +kernel)
    refine ⟨⟨crateConfig, f, crateParser⟩, of_eq_ok_iff.2 ⟨f, hf, rfl⟩, ?_⟩
    simp only [Scorer.index, ProjectIndex.of, Registry.discover, hentry, hinput, hfiles, bind,
      Except.bind]
    rfl

theorem ends_canonical_crates : ∃ s d,
    Scorer.of crateConfig crateParser = .ok s ∧ s.index crates "p" = .ok crateIndex ∧
    crateIndex.units.length = 2 ∧
    (crateIndex.edges crateConfig).pairs = [(⟨"x", "y"⟩, 1)] ∧
    (crateIndex.registry.contains "x" = true ∧ crateIndex.registry.contains "y" = true) ∧
    Scorer.of { crateConfig with sourcePackage := .declared } crateParser = .ok d ∧
    crateIndex.edges d.config = crateIndex.edges crateConfig := by
  obtain ⟨s, hs, hi⟩ := index_crates
  have hpairs : (crateIndex.edges crateConfig).pairs = [(⟨"x", "y"⟩, 1)] := by decide +kernel
  have hdeclared : ∀ u ∈ crateIndex.units, u.context.package.isSome = true ∧
      u.context.package = crateIndex.registry.packageOf? u.path := by decide +kernel
  obtain ⟨-, -, hends, -, hpolicy⟩ := ends_canonical_of_directory rfl hs hi
  obtain ⟨d, hd, -, hedges⟩ := hpolicy fun u hu => by
    obtain ⟨hsome, hfolder⟩ := hdeclared u hu
    obtain ⟨p, hp⟩ := Option.isSome_iff_exists.1 hsome
    exact ⟨p, hp, hfolder ▸ hp⟩
  exact ⟨s, d, hs, hi, by decide +kernel, hpairs,
    hends (⟨"x", "y"⟩, 1) (by rw [hpairs]; simp), hd, hedges⟩

end Scorer

end PackageModularity

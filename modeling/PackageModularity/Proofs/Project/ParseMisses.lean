import PackageModularity.Proofs.Package.DiscoveredFiles
import PackageModularity.Proofs.Project.FolderPackages

/-!
Files that do not parse. Every source file of a project is parsed or missed, and a file that turns
into a miss takes its own unit away and nothing else.
-/
namespace PackageModularity

namespace Entry

def bytesAt (tree : Entry) (names : List String) : List UInt8 :=
  match tree.at? names with
  | some (.file bytes) => bytes
  | _ => []

theorem bytesAt_of_file {tree : Entry} {names : List String} {bytes : List UInt8}
    (h : tree.at? names = some (.file bytes)) : tree.bytesAt names = bytes := by
  rw [bytesAt, h]

end Entry

/-- Bytes that are no text, or a text with syntax errors. -/
def Parser.Misses (parse : Parser) (bytes : List UInt8) : Prop :=
  ∀ text, Utf8.encode text = bytes → parse text = none

/-- Some files of a tree are turned into misses. The other files stay what they are. -/
structure Spoiled (parse : Parser) (missed : List (List String)) (tree spoiled : Entry) : Prop where
  kept : ∀ names, names ∉ missed → ∀ bytes,
    spoiled.at? names = some (.file bytes) ↔ tree.at? names = some (.file bytes)
  missed : ∀ names ∈ missed, (∃ bytes, tree.at? names = some (.file bytes)) ∧
    ∃ bytes, spoiled.at? names = some (.file bytes) ∧ parse.Misses bytes

namespace Spoiled

variable {parse : Parser} {missed : List (List String)} {tree spoiled : Entry}

theorem sameSources (h : Spoiled parse missed tree spoiled) (filter : SourceFilter) :
    Registry.SameSources filter tree spoiled := by
  intro names _
  by_cases hmissed : names ∈ missed
  · obtain ⟨hbefore, bytes, hafter, -⟩ := h.missed names hmissed
    exact iff_of_true hbefore ⟨bytes, hafter⟩
  · exact exists_congr fun bytes => (h.kept names hmissed bytes).symm

theorem unit?_eq (h : Spoiled parse missed tree spoiled) (base : Path) {names : List String}
    (hfile : ∃ bytes, tree.at? names = some (.file bytes)) :
    ProjectIndex.unit? parse base (names, spoiled.bytesAt names) =
      (ProjectIndex.unit? parse base (names, tree.bytesAt names)).filter
        fun u => u.path ∉ missed.map base.append := by
  have hpath : ∀ bytes u, ProjectIndex.unit? parse base (names, bytes) = some u →
      (u.path ∈ missed.map base.append ↔ names ∈ missed) := by
    intro bytes u hu
    rw [ProjectIndex.path_of_unit? hu, List.mem_map_of_injective base.append_injective]
  by_cases hmissed : names ∈ missed
  · obtain ⟨-, bytes, hafter, hmiss⟩ := h.missed names hmissed
    rw [Entry.bytesAt_of_file hafter]
    have hnone : ProjectIndex.unit? parse base (names, bytes) = none := by
      cases hu : ProjectIndex.unit? parse base (names, bytes) with
      | none => rfl
      | some u =>
        obtain ⟨text, t, htext, ht, -⟩ := ProjectIndex.unit?_eq_some_iff.1 hu
        simp [hmiss text htext] at ht
    rw [hnone]
    cases hu : ProjectIndex.unit? parse base (names, tree.bytesAt names) with
    | none => rfl
    | some u => simp [Option.filter, (hpath _ u hu).2 hmissed]
  · obtain ⟨bytes, hbefore⟩ := hfile
    have hafter := (h.kept names hmissed bytes).2 hbefore
    rw [Entry.bytesAt_of_file hbefore, Entry.bytesAt_of_file hafter]
    cases hu : ProjectIndex.unit? parse base (names, bytes) with
    | none => rfl
    | some u => simp [Option.filter, mt (hpath _ u hu).1 hmissed]

end Spoiled

namespace Registry

variable {fs fs' : FileSystem} {root : String} {children others : List (String × Entry)}

theorem names_listed_congr {filter : SourceFilter} (h : IsRoot fs root children)
    (h' : IsRoot fs' root others) (hsame : SameSources filter (.folder children) (.folder others)) :
    (listed filter root others).map (·.1) = (listed filter root children).map (·.1) := by
  rw [listed, listed]
  split
  · rfl
  · exact names_sourceFiles_congr h.wellNamed_folder h'.wellNamed_folder hsame

theorem at?_of_mem_listed {filter : SourceFilter} (h : IsRoot fs root children)
    {f : List String × List UInt8} (hf : f ∈ listed filter root children) :
    (Entry.folder children).at? f.1 = some (.file f.2) := by
  rw [listed] at hf
  split at hf
  · simp at hf
  · exact ((mem_sourceFiles_iff h.wellNamed_folder f.1 f.2).1 hf).1

theorem listed_eq (filter : SourceFilter) (h : IsRoot fs root children) :
    listed filter root children = ((listed filter root children).map (·.1)).map fun names =>
      (names, (Entry.folder children).bytesAt names) := by
  rw [List.map_map]
  refine (List.map_id _).symm.trans (List.map_congr_left fun f hf => ?_)
  exact Prod.ext rfl (Entry.bytesAt_of_file (at?_of_mem_listed h hf)).symm

theorem exists_discover (c : Config) (filter : SourceFilter) (h : IsRoot fs root children) :
    ∃ r, discover fs root c filter = .ok (r, listed filter root children) ∧
      ∀ fs' others, IsRoot fs' root others →
        (listed filter root others).map (·.1) = (listed filter root children).map (·.1) →
        discover fs' root c filter = .ok (r, listed filter root others) :=
  ⟨found c root ((listed filter root children).map (·.1)),
    discover_eq_ok_iff.2 ⟨children, h.entry, rfl, rfl⟩, fun _ others h' hnames =>
    discover_eq_ok_iff.2 ⟨others, h'.entry, rfl, by rw [hnames]⟩⟩

end Registry

namespace ProjectIndex

open Registry (IsRoot listed)

variable {fs fs' : FileSystem} {root : String} {children others : List (String × Entry)}
  {parse : Parser} {missed : List (List String)}

def unitsWithout (i : ProjectIndex) (missed : List (List String)) : List SourceUnit :=
  i.units.filter fun u => u.path ∉ missed.map i.registry.root.append

theorem units_eq_unitsWithout {filter : SourceFilter} {r : Registry} {i i' : ProjectIndex}
    (h : IsRoot fs root children) (h' : IsRoot fs' root others)
    (hspoiled : Spoiled parse missed (.folder children) (.folder others))
    (hi : i.Accounts parse r (listed filter root children))
    (hi' : i'.Accounts parse r (listed filter root others)) : i'.units = i.unitsWithout missed := by
  -- both listings are maps over the same names, so their units compare name by name
  have hnames := Registry.names_listed_congr h h' (hspoiled.sameSources filter)
  rw [unitsWithout, hi.registry, hi.units, hi'.units, Registry.listed_eq filter h', hnames,
    List.filterMap_map]
  conv_rhs => rw [Registry.listed_eq filter h, List.filterMap_map]
  rw [List.filter_filterMap]
  refine List.filterMap_congr fun names hmem => ?_
  obtain ⟨f, hf, rfl⟩ := List.mem_map.1 hmem
  exact hspoiled.unit?_eq r.root ⟨f.2, Registry.at?_of_mem_listed h hf⟩

theorem edges_of_accounts {c : Config} {r : Registry} {files : List (List String × List UInt8)}
    {i : ProjectIndex} (h : i.Accounts parse r files) :
    i.edges c = EdgeMultiset.ofList
      (i.units.flatMap (r.edgesOf c.sourcePackage (TypeTable.ofUnits i.units).resolve)) := by
  rw [← h.table, ← h.registry]
  rfl

end ProjectIndex

namespace Scorer

open Registry (IsRoot discover)

theorem index_eq (s : Scorer) {fs : FileSystem} {root : String} {r : Registry}
    {files : List (List String × List UInt8)}
    (h : discover fs root s.config s.filter = .ok (r, files)) :
    s.index fs root = .ok (.ofFiles s.parse r files) := by
  simp [index, ProjectIndex.of, h, bind, Except.bind]

/-- An index accounts for every source file once. Where some files turn into misses the other files
keep their units, and the edges are those of these units alone. -/
theorem index_accounts (s : Scorer) {fs : FileSystem} {root : String}
    {children : List (String × Entry)} (h : IsRoot fs root children) :
    ∃ r files i, discover fs root s.config s.filter = .ok (r, files) ∧
      s.index fs root = .ok i ∧ i.Accounts s.parse r files ∧
      (∀ file u, ProjectIndex.unit? s.parse r.root file = some u ↔
        ∃ text tree, Utf8.encode text = file.2 ∧ s.parse text = some tree ∧
          isReadable (r.root.append file.1) = true ∧
          u = SourceUnit.ofTree defaultMaxDepth (r.root.append file.1) tree) ∧
      ∀ fs' others missed, IsRoot fs' root others →
        Spoiled s.parse missed (.folder children) (.folder others) →
        ∃ files' i', discover fs' root s.config s.filter = .ok (r, files') ∧
          s.index fs' root = .ok i' ∧ i'.Accounts s.parse r files' ∧
          files'.map (·.1) = files.map (·.1) ∧ i'.units = i.unitsWithout missed ∧
          i'.edges s.config = EdgeMultiset.ofList ((i.unitsWithout missed).flatMap
            (r.edgesOf s.config.sourcePackage
              (TypeTable.ofUnits (i.unitsWithout missed)).resolve)) := by
  obtain ⟨r, hr, hothers⟩ := Registry.exists_discover s.config s.filter h
  have hi := ProjectIndex.accounts_ofFiles s.parse r (Registry.listed s.filter root children)
  refine ⟨r, _, _, hr, s.index_eq hr, hi, fun file u => ProjectIndex.unit?_eq_some_iff,
    fun fs' others missed h' hspoiled => ?_⟩
  have hnames := Registry.names_listed_congr h h' (hspoiled.sameSources s.filter)
  have hr' := hothers fs' others h' hnames
  have hi' := ProjectIndex.accounts_ofFiles s.parse r (Registry.listed s.filter root others)
  have hunits := ProjectIndex.units_eq_unitsWithout h h' hspoiled hi hi'
  exact ⟨_, _, hr', s.index_eq hr', hi', hnames, hunits,
    hunits ▸ ProjectIndex.edges_of_accounts hi'⟩

def spoiledFiles : List (String × Entry) :=
  [("src", .folder [("x", .folder [("Crate.java", .file (Utf8.encode crateText))]),
    ("y", .folder [("Box.java", .file [0xff])])])]

def spoiledCrates : FileSystem := ⟨.folder [("p", .folder spoiledFiles)], []⟩

def javaScorer : Scorer := ⟨Config.default, Registry.javaFiles, crateParser⟩

theorem index_accounts_crates :
    IsRoot crates "p" crateFiles ∧ IsRoot spoiledCrates "p" spoiledFiles ∧
    Spoiled crateParser [["src", "y", "Box.java"]] (.folder crateFiles) (.folder spoiledFiles) ∧
    ∃ i i', javaScorer.index crates "p" = .ok i ∧ javaScorer.index spoiledCrates "p" = .ok i' ∧
      i.stats.files = i.stats.parsed + i.stats.misses ∧ i'.stats.files = i.stats.files ∧
      i'.units = i.unitsWithout [["src", "y", "Box.java"]] := by
  have hcrates : IsRoot crates "p" crateFiles := ⟨by decide +kernel, rfl⟩
  have hspoiledCrates : IsRoot spoiledCrates "p" spoiledFiles := ⟨by decide +kernel, rfl⟩
  have hspoiled : Spoiled crateParser [["src", "y", "Box.java"]] (.folder crateFiles)
      (.folder spoiledFiles) := by
    refine ⟨fun names hnames bytes => ?_, ?_⟩
    · rw [← Entry.mem_files_iff hspoiledCrates.wellNamed_folder,
        ← Entry.mem_files_iff hcrates.wellNamed_folder]
      have hne : names ≠ ["src", "y", "Box.java"] := by simpa using hnames
      simp [Entry.files, Entry.filesOf, crateFiles, spoiledFiles, hne]
    · rintro names hnames
      obtain rfl : names = ["src", "y", "Box.java"] := by simpa using hnames
      refine ⟨⟨Utf8.encode boxText, rfl⟩, [0xff], rfl, fun text htext => ?_⟩
      have hnone : Utf8.decode? [0xff] = none := by decide +kernel
      simp [Utf8.decode?_eq_some_iff.2 htext] at hnone
  obtain ⟨r, files, i, -, hi, haccounts, -, hmisses⟩ := javaScorer.index_accounts hcrates
  obtain ⟨files', i', -, hi', haccounts', hnames, hunits, -⟩ :=
    hmisses _ _ _ hspoiledCrates hspoiled
  refine ⟨hcrates, hspoiledCrates, hspoiled, i, i', hi, hi', haccounts.total, ?_, hunits⟩
  rw [haccounts.files, haccounts'.files, ← List.length_map, hnames, List.length_map]

end Scorer

end PackageModularity

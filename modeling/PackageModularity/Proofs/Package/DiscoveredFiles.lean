import Mathlib.Data.List.Lex
import Mathlib.Data.List.Sort
import Mathlib.Data.String.Basic
import PackageModularity.Proofs.Coupling.PackageSet
import PackageModularity.Proofs.Files.TreeFiles
import PackageModularity.Proofs.Package.FoundPackages
import PackageModularity.Proofs.Package.PlainExtensions

/-!
Discovery of a project. It lists the regular files below the root that the filter accepts, once each
and in path order, and the packages that their folders name. Only the names of these files count.
-/
namespace PackageModularity

/-! ### The order of paths -/

/-- The root comes first, then `.`, `..` and the names in their own order. -/
inductive Component.Before : Component → Component → Prop
  | rootCurrent : Before .root .current
  | rootParent : Before .root .parent
  | rootName (s : String) : Before .root (.name s)
  | currentParent : Before .current .parent
  | currentName (s : String) : Before .current (.name s)
  | parentName (s : String) : Before .parent (.name s)
  | names {s t : String} (h : s < t) : Before (.name s) (.name t)

namespace Path

/-- The first component that differs decides, and a path comes before those that go on from it. -/
def Before (p q : Path) : Prop := List.Lex Component.Before p.components q.components

theorem before_append (base : Path) {names others : List String}
    (h : names < others) : (base.append names).Before (base.append others) := by
  refine List.Lex.append_left _ ?_ base.components
  induction h with
  | nil => exact .nil
  | cons h ih => exact .cons ih
  | rel h => exact .rel (.names h)

end Path

namespace Registry

theorem upTo_iff (names others : List String) : upTo names others = true ↔ names ≤ others := by
  rw [le_iff_eq_or_lt]
  induction names generalizing others with
  | nil => cases others <;> simp [upTo]
  | cons n r ih =>
    cases others with
    | nil => simp [upTo]
    | cons m s =>
      have hlt : n :: r < m :: s ↔ n < m ∨ n = m ∧ r < s := List.cons_lex_cons_iff
      rw [upTo, Bool.or_eq_true, Bool.and_eq_true, ih, decide_eq_true_eq, beq_iff_eq, hlt,
        List.cons.injEq]
      tauto

theorem pairwise_mergeSort_upTo {α : Type} {names : α → List String} {l : List α}
    (h : (l.map names).Nodup) :
    (l.mergeSort fun a b => upTo (names a) (names b)).Pairwise
      fun a b => names a < names b := by
  have hsorted : (l.mergeSort fun a b => upTo (names a) (names b)).Pairwise
      fun a b => names a ≤ names b := by
    have hpairwise := @List.pairwise_mergeSort α (fun a b => upTo (names a) (names b))
      (fun a b c => by simpa only [upTo_iff] using le_trans)
      (fun a b => by simpa only [Bool.or_eq_true, upTo_iff] using le_total _ _) l
    simpa only [upTo_iff] using hpairwise
  have hdistinct : (l.mergeSort fun a b => upTo (names a) (names b)).Pairwise
      fun a b => names a ≠ names b :=
    List.pairwise_map.1 (((List.mergeSort_perm l _).map names).nodup_iff.2 h)
  exact (hsorted.and hdistinct).imp fun h => lt_of_le_of_ne h.1 h.2

/-! ### The files -/

theorem accepts_append (filter : SourceFilter) (base : Path) {names : List String}
    (h : names ≠ []) : filter.accepts (base.append names) = filter.accepts (.ofNames names) := by
  have hlast : (base.components ++ names.map Component.name).getLast? =
      (names.map Component.name).getLast? :=
    List.getLast?_append_of_ne_nil _ (by simpa using h)
  rw [SourceFilter.accepts, SourceFilter.accepts, Path.fileName?, Path.fileName?, Path.append,
    hlast]
  rfl

theorem mem_sourceFiles_iff {filter : SourceFilter} {tree : Entry} (h : tree.wellNamed = true)
    (names : List String) (bytes : List UInt8) :
    (names, bytes) ∈ sourceFiles filter tree ↔
      tree.at? names = some (.file bytes) ∧ filter.accepts (.ofNames names) = true := by
  rw [sourceFiles, List.mem_mergeSort, List.mem_filter, Entry.mem_files_iff h]

theorem pairwise_sourceFiles (filter : SourceFilter) {tree : Entry} (h : tree.wellNamed = true) :
    (sourceFiles filter tree).Pairwise fun f g => f.1 < g.1 :=
  pairwise_mergeSort_upTo
    ((List.filter_sublist.map _).nodup (Entry.nodup_files tree h))

/-- Two folders have the same source files by name, whatever these hold and whatever else there
is. -/
def SameSources (filter : SourceFilter) (tree other : Entry) : Prop :=
  ∀ names, filter.accepts (.ofNames names) = true →
    ((∃ bytes, tree.at? names = some (.file bytes)) ↔ ∃ bytes, other.at? names = some (.file bytes))

theorem names_sourceFiles_congr {filter : SourceFilter} {tree other : Entry}
    (htree : tree.wellNamed = true) (hother : other.wellNamed = true)
    (h : SameSources filter tree other) :
    (sourceFiles filter other).map (·.1) = (sourceFiles filter tree).map (·.1) := by
  have hmem : ∀ {t : Entry}, t.wellNamed = true → ∀ names,
      names ∈ (sourceFiles filter t).map (·.1) ↔
        (∃ bytes, t.at? names = some (.file bytes)) ∧ filter.accepts (.ofNames names) = true := by
    intro t ht names
    simp only [List.mem_map, Prod.exists, exists_and_right, exists_eq_right,
      mem_sourceFiles_iff ht]
  -- a strictly increasing list is known by its members
  refine List.Pairwise.eq_of_mem_iff (List.pairwise_map.2 (pairwise_sourceFiles filter hother))
    (List.pairwise_map.2 (pairwise_sourceFiles filter htree)) fun names => ?_
  rw [hmem hother, hmem htree]
  exact and_congr_left fun haccepts => (h names haccepts).symm

/-! ### The packages -/

/-- A folder without the first of some source roots that are the first components of it. -/
def belowSourceRoot (roots : List Path) (folder : List String) : List String :=
  match roots.find? fun root => root.components.isPrefixOf (folder.map .name) with
  | some root => folder.drop root.components.length
  | none => folder

theorem withoutRoot_ofNames (folder : List String) (roots : List Path) :
    withoutRoot (.ofNames folder) roots = .ofNames (belowSourceRoot roots folder) := by
  induction roots with
  | nil => rfl
  | cons root r ih =>
    rw [withoutRoot, Path.relativeTo?_ofNames, ih, belowSourceRoot, belowSourceRoot,
      List.find?_cons]
    by_cases h : root.components.isPrefixOf (folder.map .name) = true <;> simp [h]

theorem packageOf?_below (r : Registry) {names : List String} (h : names ≠ []) :
    r.packageOf? (r.root.append names) =
      some (joinWith r.separator (belowSourceRoot r.sourceRoots names.dropLast)) := by
  rw [packageOf?_append r h, withoutRoot_ofNames, Path.names_ofNames]

/-! ### Discovery -/

/-- A folder in a tree, by the text of its path. -/
structure IsRoot (fs : FileSystem) (root : String) (children : List (String × Entry)) : Prop where
  wellNamed : fs.root.wellNamed = true
  entry : fs.entry (.ofText root) = .ok (.folder children)

/-- A folder that discovery walks through. A lone hyphen stands for the standard input instead. -/
structure IsWalked (fs : FileSystem) (root : String) (children : List (String × Entry)) : Prop
    extends IsRoot fs root children where
  notStandardInput : isStandardInput (.ofText root) = false

theorem IsRoot.wellNamed_folder {fs : FileSystem} {root : String}
    {children : List (String × Entry)} (h : IsRoot fs root children) :
    (Entry.folder children).wellNamed = true := by
  have hentry := h.entry
  rw [FileSystem.entry] at hentry
  cases hnames : fs.locate (.ofText root) with
  | error e => simp [hnames, bind, Except.bind] at hentry
  | ok names =>
    cases hat : fs.root.at? names with
    | none => simp [hnames, hat, bind, Except.bind] at hentry
    | some e =>
      obtain rfl : e = .folder children := by simpa [hnames, hat, bind, Except.bind] using hentry
      exact (Entry.wellNamed_at? h.wellNamed hat).2

/-- What a registry and a list of files say of a folder. -/
structure Describes (c : Config) (filter : SourceFilter) (tree : Entry) (r : Registry)
    (files : List (List String × List UInt8)) : Prop where
  mem_files_iff : ∀ names bytes, (names, bytes) ∈ files ↔
    tree.at? names = some (.file bytes) ∧ filter.accepts (r.root.append names) = true
  nodup : (files.map fun f => r.root.append f.1).Nodup
  increasing : (files.map fun f => r.root.append f.1).Pairwise Path.Before
  packageOf? : ∀ f ∈ files, r.packageOf? (r.root.append f.1) = some (joinWith c.packageSeparator
    (belowSourceRoot (c.sourceRoots.map .ofText) f.1.dropLast))
  contains_iff : ∀ p, r.contains p = true ↔
    ∃ f ∈ files, r.packageOf? (r.root.append f.1) = some p

variable {fs : FileSystem} {root : String} {children : List (String × Entry)}

/-- Discovery of a folder that is walked through lists all its source files. -/
theorem discover_of_isWalked (c : Config) (filter : SourceFilter) (h : IsWalked fs root children) :
    discover fs root c filter =
      .ok (found c root ((sourceFiles filter (.folder children)).map (·.1)),
        sourceFiles filter (.folder children)) := by
  have hlisted : listed filter root children = sourceFiles filter (.folder children) := by
    simp [listed, h.notStandardInput]
  exact discover_eq_ok_iff.2 ⟨children, h.entry, hlisted.symm, rfl⟩

theorem describes_found (c : Config) (filter : SourceFilter) (root : String)
    (h : (Entry.folder children).wellNamed = true) :
    Describes c filter (.folder children)
      (found c root ((sourceFiles filter (.folder children)).map (·.1)))
      (sourceFiles filter (.folder children)) := by
  have hincreasing := pairwise_sourceFiles filter h
  refine ⟨fun names bytes => ?_, ?_, ?_, fun f hf => ?_, fun p => ?_⟩
  · rw [mem_sourceFiles_iff h]
    refine and_congr_right fun hfile => ?_
    have hnames : names ≠ [] := by
      rintro rfl
      simp [Entry.at?] at hfile
    rw [accepts_append filter _ hnames]
  · refine List.pairwise_map.2 (hincreasing.imp fun hlt heq => ?_)
    exact hlt.ne (Path.append_injective _ heq)
  · exact List.pairwise_map.2 (hincreasing.imp (Path.before_append _))
  · rw [packageOf?_below _ (ne_nil_of_mem_sourceFiles hf), separator_found, sourceRoots_found]
  · simp only [contains_found, List.mem_map, exists_exists_and_eq_and]

theorem packageOf?_found (c : Config) (root root' : String) (files names : List (List String))
    (file : List String) :
    (found c root' names).packageOf? ((found c root' names).root.append file) =
      (found c root files).packageOf? ((found c root files).root.append file) := by
  simp only [packageOf?, Path.relativeTo?_append, separator_found, sourceRoots_found]

/-- Discovery lists the source files of a folder and their packages exactly. A folder elsewhere with
the same source files by name, in any order, with any contents and among any other entries, has the
same files and packages below it. -/
theorem discover_exact (c : Config) (filter : SourceFilter) (h : IsWalked fs root children) :
    ∃ r files, discover fs root c filter = .ok (r, files) ∧ r.root = .ofText root ∧
      Describes c filter (.folder children) r files ∧
      ∀ fs' root' others, IsWalked fs' root' others →
        SameSources filter (.folder children) (.folder others) →
        ∃ r' files', discover fs' root' c filter = .ok (r', files') ∧
          files'.map (·.1) = files.map (·.1) ∧ r'.packages = r.packages ∧
          ∀ names, r'.packageOf? (r'.root.append names) = r.packageOf? (r.root.append names) := by
  refine ⟨_, _, discover_of_isWalked c filter h, root_found,
    describes_found c filter root h.wellNamed_folder, fun fs' root' others h' hsame => ?_⟩
  have hnames := names_sourceFiles_congr h.wellNamed_folder h'.wellNamed_folder hsame
  refine ⟨_, _, discover_of_isWalked c filter h', hnames, PackageSet.ext_contains fun p => ?_,
    packageOf?_found c root root' _ _⟩
  rw [hnames]
  refine contains_found.trans
    (Iff.trans (exists_congr fun file => and_congr_right fun _ => ?_) contains_found.symm)
  rw [packageOf?_found c root root' _ _ file]

def shopFiles : List (String × Entry) :=
  [("src", .folder [("mainly", .folder [("V.java", .file [1])]),
      ("main", .folder [("w", .folder [("W.java", .file [2])])])]),
    ("a.b", .folder [("X.java", .file [])]),
    ("a", .folder [("b", .folder [("Y.java", .file [3])]), ("L.java", .link "../a.b/X.java")])]

def stallFiles : List (String × Entry) :=
  [("a", .folder [("b", .folder [("Y.java", .file [])])]), ("a.b", .folder [("X.java", .file [])]),
    ("notes.txt", .file [7]), ("empty.java", .folder []),
    ("src", .folder [("main", .folder [("w", .folder [("W.java", .file [])])]),
      ("mainly", .folder [("V.java", .file [])])])]

def market : FileSystem :=
  ⟨.folder [("shop", .folder shopFiles), ("old", .folder [("stall", .folder stallFiles)])], []⟩

def javaFiles : SourceFilter := ⟨[Pattern.endingIn ".java"], ""⟩

theorem discover_exact_market :
    IsWalked market "shop" shopFiles ∧ IsWalked market "./old/stall/" stallFiles ∧
    SameSources javaFiles (.folder shopFiles) (.folder stallFiles) ∧
    ∃ r files r' files',
      discover market "shop" { Config.default with sourceRoots := ["src/main"] } javaFiles =
        .ok (r, files) ∧
      discover market "./old/stall/" { Config.default with sourceRoots := ["src/main"] } javaFiles =
        .ok (r', files') ∧
      (["a", "b", "Y.java"], [3]) ∈ files ∧ (["src", "main", "w", "W.java"], [2]) ∈ files ∧
      r.packageOf? (.ofText "shop/src/main/w/W.java") = some "w" ∧
      r.packageOf? (.ofText "shop/src/mainly/V.java") = some "src.mainly" ∧
      files'.map (·.1) = files.map (·.1) ∧ r'.contains "w" = true := by
  have hshop : IsWalked market "shop" shopFiles := ⟨⟨by decide +kernel, rfl⟩, by decide⟩
  have hstall : IsWalked market "./old/stall/" stallFiles := ⟨⟨by decide +kernel, rfl⟩, by decide⟩
  have hsame : SameSources javaFiles (.folder shopFiles) (.folder stallFiles) := by
    intro names haccepts
    rw [Entry.exists_file_iff hshop.wellNamed_folder, Entry.exists_file_iff hstall.wellNamed_folder]
    have hleft : ∀ names ∈ (Entry.folder shopFiles).files.map (·.1),
        names ∈ (Entry.folder stallFiles).files.map (·.1) := by decide +kernel
    have hright : ∀ names ∈ (Entry.folder stallFiles).files.map (·.1),
        javaFiles.accepts (.ofNames names) = true →
          names ∈ (Entry.folder shopFiles).files.map (·.1) := by decide +kernel
    exact ⟨hleft names, fun h => hright names h haccepts⟩
  obtain ⟨r, files, hr, hroot, hfound, helsewhere⟩ :=
    discover_exact { Config.default with sourceRoots := ["src/main"] } javaFiles hshop
  obtain ⟨r', files', hr', hnames, hpackages, -⟩ := helsewhere _ _ _ hstall hsame
  have hfile : ∀ names bytes, (Entry.folder shopFiles).at? names = some (.file bytes) →
      javaFiles.accepts ((Path.ofText "shop").append names) = true → (names, bytes) ∈ files := by
    intro names bytes hat haccepts
    exact (hfound.mem_files_iff names bytes).2 ⟨hat, hroot ▸ haccepts⟩
  have hw := hfile ["src", "main", "w", "W.java"] [2] rfl (by decide +kernel)
  have hv := hfile ["src", "mainly", "V.java"] [1] rfl (by decide +kernel)
  have hpackageW := hfound.packageOf? _ hw
  have hpackageV := hfound.packageOf? _ hv
  refine ⟨hshop, hstall, hsame, r, files, r', files', hr, hr',
    hfile ["a", "b", "Y.java"] [3] rfl (by decide +kernel), hw, ?_, ?_, hnames, ?_⟩
  · rw [hroot] at hpackageW
    exact hpackageW
  · rw [hroot] at hpackageV
    exact hpackageV
  · rw [contains, hpackages]
    exact (hfound.contains_iff "w").2 ⟨_, hw, hpackageW⟩

end Registry

end PackageModularity

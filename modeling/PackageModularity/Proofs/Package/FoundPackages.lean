import Mathlib.Data.List.Basic
import PackageModularity.Package.Registry

/-!
What discovery finds. A file below the root is in the package of its folder, and the packages of a
registry are those of the files that were gone through.
-/
namespace PackageModularity

namespace Path

theorem append_injective (base : Path) : Function.Injective base.append := fun _ _ h =>
  List.map_injective_iff.2 (fun _ _ => Component.name.inj)
    (List.append_cancel_left (Path.mk.inj h))

theorem dropPrefix?_eq (cs base : List Component) :
    dropPrefix? cs base = if base.isPrefixOf cs then some (cs.drop base.length) else none := by
  induction base generalizing cs with
  | nil => cases cs <;> simp [dropPrefix?]
  | cons b base ih =>
    cases cs with
    | nil => simp [dropPrefix?]
    | cons c cs => by_cases h : c = b <;> simp [dropPrefix?, ih, h, Ne.symm]

theorem dropPrefix?_append (base more : List Component) :
    dropPrefix? (base ++ more) base = some more := by
  simp [dropPrefix?_eq]

theorem relativeTo?_append (base : Path) (names : List String) :
    (base.append names).relativeTo? base = some (ofNames names) := by
  rw [relativeTo?, append, dropPrefix?_append]
  rfl

theorem relativeTo?_ofNames (names : List String) (base : Path) :
    (ofNames names).relativeTo? base =
      if base.components.isPrefixOf (names.map .name) then
        some (ofNames (names.drop base.components.length)) else none := by
  rw [relativeTo?, ofNames, dropPrefix?_eq, ofNames, List.map_drop]
  split <;> rfl

theorem names_ofNames (names : List String) : (ofNames names).names = names := by
  rw [Path.names, ofNames, List.filterMap_map]
  exact List.filterMap_some

theorem parent?_ofNames {names : List String} (h : names ≠ []) :
    (ofNames names).parent? = some (ofNames names.dropLast) := by
  have hlast : (ofNames names).components.getLast? = some (.name (names.getLast h)) := by
    rw [ofNames, List.getLast?_map, List.getLast?_eq_some_getLast h]
    rfl
  rw [parent?, hlast, ofNames, ofNames, List.map_dropLast]

end Path

theorem Entry.names_ne_nil_of_mem_filesOf {cs : List (String × Entry)}
    {f : List String × List UInt8} (h : f ∈ filesOf cs) : f.1 ≠ [] := by
  induction cs with
  | nil => simp [filesOf] at h
  | cons c cs ih =>
    obtain ⟨name, e⟩ := c
    rw [filesOf] at h
    rcases List.mem_append.1 h with h | h
    · obtain ⟨g, -, rfl⟩ := List.mem_map.1 h
      exact List.cons_ne_nil _ _
    · exact ih h

namespace Registry

/-! ### The packages of some files -/

theorem packageOf?_append (r : Registry) {names : List String} (h : names ≠ []) :
    r.packageOf? (r.root.append names) =
      some (joinWith r.separator (withoutRoot (.ofNames names.dropLast) r.sourceRoots).names) := by
  simp [packageOf?, Path.relativeTo?_append, Path.parent?_ofNames h]

theorem addPackage_eq (r : Registry) (file : List String) :
    ∃ ps : PackageSet, r.addPackage file = { r with packages := ps } ∧
      ∀ p, ps.contains p = true ↔
        r.contains p = true ∨ r.packageOf? (r.root.append file) = some p := by
  cases hp : r.packageOf? (r.root.append file) with
  | none => exact ⟨r.packages, by rw [addPackage, hp], by simp [contains]⟩
  | some q =>
    refine ⟨r.packages.insert q (), by rw [addPackage, hp], fun p => ?_⟩
    rw [Dict.contains, Dict.get?_insert, contains, Dict.contains]
    by_cases h : p = q
    · simp [h]
    · simp [h, Ne.symm h]

theorem foldl_addPackage_eq (files : List (List String)) (r : Registry) :
    ∃ ps : PackageSet, files.foldl addPackage r = { r with packages := ps } ∧
      ∀ p, ps.contains p = true ↔
        r.contains p = true ∨ ∃ file ∈ files, r.packageOf? (r.root.append file) = some p := by
  induction files generalizing r with
  | nil => exact ⟨r.packages, rfl, by simp [contains]⟩
  | cons file files ih =>
    obtain ⟨qs, hqs, hq⟩ := r.addPackage_eq file
    obtain ⟨ps, hps, hp⟩ := ih { r with packages := qs }
    refine ⟨ps, by rw [List.foldl_cons, hqs, hps], fun p => (hp p).trans ?_⟩
    show (qs.contains p = true ∨ ∃ g ∈ files, r.packageOf? (r.root.append g) = some p) ↔ _
    rw [hq p, List.exists_mem_cons_iff, or_assoc]

def found (c : Config) (root : String) (files : List (List String)) : Registry :=
  files.foldl addPackage
    ⟨.ofText root, c.packageSeparator, c.sourceRoots.map .ofText, .empty⟩

variable {c : Config} {root : String} {files : List (List String)}

theorem found_eq (c : Config) (root : String) (files : List (List String)) :
    ∃ ps, found c root files =
      ⟨.ofText root, c.packageSeparator, c.sourceRoots.map .ofText, ps⟩ := by
  obtain ⟨ps, hps, -⟩ := foldl_addPackage_eq files
    ⟨.ofText root, c.packageSeparator, c.sourceRoots.map .ofText, .empty⟩
  exact ⟨ps, hps⟩

@[simp] theorem root_found : (found c root files).root = .ofText root := by
  obtain ⟨ps, hps⟩ := found_eq c root files
  rw [hps]

@[simp] theorem separator_found : (found c root files).separator = c.packageSeparator := by
  obtain ⟨ps, hps⟩ := found_eq c root files
  rw [hps]

@[simp] theorem sourceRoots_found :
    (found c root files).sourceRoots = c.sourceRoots.map .ofText := by
  obtain ⟨ps, hps⟩ := found_eq c root files
  rw [hps]

theorem contains_found {p : String} : (found c root files).contains p = true ↔
    ∃ file ∈ files,
      (found c root files).packageOf? ((found c root files).root.append file) = some p := by
  obtain ⟨ps, hps, hp⟩ := foldl_addPackage_eq files
    ⟨.ofText root, c.packageSeparator, c.sourceRoots.map .ofText, .empty⟩
  rw [found, hps]
  exact (hp p).trans (or_iff_right (by simp [contains, Dict.contains]))

/-! ### The files of a root -/

def listed (filter : SourceFilter) (root : String) (children : List (String × Entry)) :
    List (List String × List UInt8) :=
  if isStandardInput (.ofText root) then [] else sourceFiles filter (.folder children)

theorem ne_nil_of_mem_sourceFiles {filter : SourceFilter} {children : List (String × Entry)}
    {f : List String × List UInt8} (h : f ∈ sourceFiles filter (.folder children)) :
    f.1 ≠ [] := by
  rw [sourceFiles, List.mem_mergeSort, List.mem_filter, Entry.files] at h
  exact Entry.names_ne_nil_of_mem_filesOf h.1

theorem ne_nil_of_mem_listed {filter : SourceFilter} {children : List (String × Entry)}
    {f : List String × List UInt8} (h : f ∈ listed filter root children) : f.1 ≠ [] := by
  rw [listed] at h
  split at h
  · simp at h
  · exact ne_nil_of_mem_sourceFiles h

/-- Discovery succeeds on folders alone. The names of the files decide its packages. -/
theorem discover_eq_ok_iff {fs : FileSystem} {filter : SourceFilter} {r : Registry}
    {listing : List (List String × List UInt8)} :
    discover fs root c filter = .ok (r, listing) ↔
      ∃ children, fs.entry (.ofText root) = .ok (.folder children) ∧
        listing = listed filter root children ∧ r = found c root (listing.map (·.1)) := by
  rw [discover]
  split
  · rename_i children hentry
    constructor
    · intro h
      obtain ⟨rfl, rfl⟩ := Prod.mk.inj (Except.ok.inj h)
      exact ⟨children, hentry, rfl, by rw [found, List.foldl_map]⟩
    · rintro ⟨others, hothers, rfl, rfl⟩
      obtain rfl : children = others := by simpa using hentry.symm.trans hothers
      rw [found, List.foldl_map, listed]
  · rename_i hnone
    constructor
    · intro h
      simp at h
    · rintro ⟨children, hentry, -⟩
      exact absurd hentry (hnone children)

theorem contains_discover {fs : FileSystem} {filter : SourceFilter} {r : Registry}
    {listing : List (List String × List UInt8)}
    (h : discover fs root c filter = .ok (r, listing)) :
    (∀ f ∈ listing, f.1 ≠ []) ∧
    ∀ p, r.contains p = true ↔ ∃ f ∈ listing, r.packageOf? (r.root.append f.1) = some p := by
  obtain ⟨children, -, rfl, rfl⟩ := discover_eq_ok_iff.1 h
  refine ⟨fun f hf => ne_nil_of_mem_listed hf, fun p => contains_found.trans ?_⟩
  simp only [List.mem_map, exists_exists_and_eq_and]

end Registry

end PackageModularity

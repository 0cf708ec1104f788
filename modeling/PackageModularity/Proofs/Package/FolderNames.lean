import PackageModularity.Proofs.Files.NewFolders
import PackageModularity.Proofs.Package.FoundPackages

/-!
Packages and folders. With a separator of one character that no folder name holds, and without
source roots, two files are in the same package exactly when they lie in the same folder.
-/
namespace PackageModularity

/-! ### Joining names -/

theorem splitOnChar_joinWith {sep : Char} {names : List String} (hne : names ≠ [])
    (h : ∀ n ∈ names, sep ∉ n.toList) :
    splitOnChar sep (joinWith sep.toString names).toList = names.map String.toList := by
  induction names with
  | nil => exact absurd rfl hne
  | cons n r ih =>
    obtain ⟨hn, hr⟩ := List.forall_mem_cons.1 h
    cases r with
    | nil => exact splitOnChar_of_not_mem hn
    | cons m s =>
      have htext : (joinWith sep.toString (n :: m :: s)).toList =
          n.toList ++ sep :: (joinWith sep.toString (m :: s)).toList := by
        simp [joinWith]
      rw [htext, splitOnChar_append, splitOnChar_of_not_mem hn, ih (List.cons_ne_nil m s) hr]
      rfl

theorem joinWith_eq_empty_iff (sep : String) {names : List String} (h : ∀ n ∈ names, n ≠ "") :
    joinWith sep names = "" ↔ names = [] := by
  cases names with
  | nil => simp [joinWith]
  | cons n r =>
    obtain ⟨hn, -⟩ := List.forall_mem_cons.1 h
    cases r with
    | nil => simp [joinWith, hn]
    | cons m s => simp [joinWith, hn]

theorem joinWith_inj {sep : Char} {names others : List String}
    (hnames : ∀ n ∈ names, n ≠ "") (hothers : ∀ n ∈ others, n ≠ "")
    (h : ∀ n ∈ names, sep ∉ n.toList) (h' : ∀ n ∈ others, sep ∉ n.toList) :
    joinWith sep.toString names = joinWith sep.toString others ↔ names = others := by
  refine ⟨fun heq => ?_, fun heq => by rw [heq]⟩
  -- no names and one empty name are joined to the same text, so the empty list stands apart
  by_cases hnil : names = []
  · rw [hnil] at heq ⊢
    exact ((joinWith_eq_empty_iff _ hothers).1 heq.symm).symm
  · have hnil' : others ≠ [] := by
      rintro rfl
      exact hnil ((joinWith_eq_empty_iff _ hnames).1 heq)
    have hsplit := congrArg (splitOnChar sep ·.toList) heq
    simp only [splitOnChar_joinWith hnil h, splitOnChar_joinWith hnil' h'] at hsplit
    exact List.map_injective_iff.2 (fun _ _ => String.toList_inj.1) hsplit

/-- With more characters in the separator different names can come to the same text. -/
example : joinWith "aa" ["xa", "y"] = joinWith "aa" ["x", "ay"] := by decide

/-! ### Files below a root -/

namespace Path

/-- The path of a file leads from a root through some folders, perhaps by way of `.`. A path by way
of `..` lies in no folder in this sense. -/
def LiesIn (file root : Path) (folder : List String) : Prop :=
  ∃ between name, file.components = root.components ++ between ++ [.name name] ∧
    between.filter (· ≠ .current) = folder.map .name

theorem names_of_filter_current (cs : List Component) :
    (cs.filter (· ≠ .current)).filterMap Component.name? = cs.filterMap Component.name? := by
  rw [List.filterMap_filter]
  refine List.filterMap_congr fun c _ => ?_
  cases c <;> rfl

theorem LiesIn.ne_empty {text : String} {root : Path} {folder : List String}
    (h : (ofText text).LiesIn root folder) : ∀ n ∈ folder, n ≠ "" := by
  obtain ⟨between, name, hfile, hfolder⟩ := h
  intro n hn
  have hmem : .name n ∈ between.filter (· ≠ .current) := hfolder ▸ List.mem_map_of_mem hn
  have hbetween := (List.mem_filter.1 hmem).1
  exact (hasPieces_ofText text n (by simp [hfile, hbetween])).nonempty

end Path

namespace Registry

theorem packageOf?_of_liesIn {r : Registry} (hroots : r.sourceRoots = []) {file : Path}
    {folder : List String} (h : file.LiesIn r.root folder) :
    r.packageOf? file = some (joinWith r.separator folder) := by
  obtain ⟨between, name, hfile, hfolder⟩ := h
  have hrelative : file.relativeTo? r.root = some ⟨between ++ [.name name]⟩ := by
    rw [Path.relativeTo?, hfile, List.append_assoc, Path.dropPrefix?_append]
    rfl
  have hparent : Path.parent? ⟨between ++ [.name name]⟩ = some ⟨between⟩ := by
    simp [Path.parent?]
  have hnames : Path.names ⟨between⟩ = folder := by
    rw [Path.names, ← Path.names_of_filter_current, hfolder]
    exact Path.names_ofNames folder
  simp [packageOf?, hrelative, hparent, hroots, withoutRoot, hnames]

/-- Without source roots, files are in one package exactly when they lie in one folder, and only the
files of the root itself are in the package without a name. -/
theorem packages_eq_iff_folders_eq {r : Registry} {sep : Char} (hsep : r.separator = sep.toString)
    (hroots : r.sourceRoots = []) {a b : String} {folder other : List String}
    (ha : (Path.ofText a).LiesIn r.root folder) (hb : (Path.ofText b).LiesIn r.root other)
    (hfolder : ∀ n ∈ folder, sep ∉ n.toList) (hother : ∀ n ∈ other, sep ∉ n.toList) :
    ∃ p q, r.packageOf? (.ofText a) = some p ∧ r.packageOf? (.ofText b) = some q ∧
      (p = q ↔ folder = other) ∧ (p = "" ↔ folder = []) := by
  refine ⟨_, _, packageOf?_of_liesIn hroots ha, packageOf?_of_liesIn hroots hb, ?_,
    joinWith_eq_empty_iff _ ha.ne_empty⟩
  rw [hsep]
  exact joinWith_inj ha.ne_empty hb.ne_empty hfolder hother

theorem packages_eq_iff_folders_eq_parts :
    (Path.ofText "p//lib/./net.io/A.java").LiesIn (.ofText "p/") ["lib", "net.io"] ∧
    (Path.ofText "p/lib/net.io/B.java/").LiesIn (.ofText "p/") ["lib", "net.io"] ∧
    (Path.ofText "p/./C.java").LiesIn (.ofText "p/") [] ∧
    (∀ n ∈ ["lib", "net.io"], '-' ∉ n.toList) ∧ ∃ p,
      Registry.packageOf? ⟨.ofText "p/", "-", [], .empty⟩ (.ofText "p//lib/./net.io/A.java") =
        some p ∧
      Registry.packageOf? ⟨.ofText "p/", "-", [], .empty⟩ (.ofText "p/lib/net.io/B.java/") =
        some p ∧
      Registry.packageOf? ⟨.ofText "p/", "-", [], .empty⟩ (.ofText "p/./C.java") ≠ some p ∧
      p ≠ "" := by
  have ha : (Path.ofText "p//lib/./net.io/A.java").LiesIn (.ofText "p/") ["lib", "net.io"] :=
    ⟨[.name "lib", .name "net.io"], "A.java", by decide, by decide⟩
  have hb : (Path.ofText "p/lib/net.io/B.java/").LiesIn (.ofText "p/") ["lib", "net.io"] :=
    ⟨[.name "lib", .name "net.io"], "B.java", by decide, by decide⟩
  have hc : (Path.ofText "p/./C.java").LiesIn (.ofText "p/") [] :=
    ⟨[], "C.java", by decide, by decide⟩
  have hsep : ∀ n ∈ ["lib", "net.io"], '-' ∉ n.toList := by decide
  obtain ⟨p, q, hp, hq, heq, hempty⟩ :=
    packages_eq_iff_folders_eq (r := ⟨.ofText "p/", "-", [], .empty⟩) rfl rfl ha hb hsep hsep
  obtain ⟨p', q', hp', hq', heq', -⟩ :=
    packages_eq_iff_folders_eq (r := ⟨.ofText "p/", "-", [], .empty⟩) rfl rfl ha hc hsep (by simp)
  obtain rfl : p = p' := Option.some.inj (hp.symm.trans hp')
  refine ⟨ha, hb, hc, hsep, p, hp, hq.trans (congrArg some (heq.2 rfl).symm), ?_, ?_⟩
  · rw [hq']
    exact fun h => absurd (heq'.1 (Option.some.inj h).symm) (by decide)
  · exact fun h => absurd (hempty.1 h) (by decide)

end Registry

end PackageModularity

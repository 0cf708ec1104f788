import PackageModularity.Proofs.Batch.ListedProjects
import PackageModularity.Proofs.Batch.ScorePlaces

/-!
The plain case of where scores lie: below the output folder in one folder for each data type, with
no links among them and one file name for each project.
-/
namespace PackageModularity

open Entry (FolderAt Within)

theorem isPiece_scoreFileName {c : Config} (hslash : '/' ∉ c.scoreExtension.toList) {name : String}
    (hname : IsPiece name) : IsPiece (c.scoreFileName name) := by
  have htext : (c.scoreFileName name).toList = name.toList ++ '.' :: c.scoreExtension.toList := by
    simp [Config.scoreFileName]
  have hne : ∀ text : String, (name.toList ++ '.' :: c.scoreExtension.toList ≠ text.toList) →
      c.scoreFileName name ≠ text := by
    rintro text h rfl
    exact h htext.symm
  obtain ⟨a, r, har⟩ : ∃ a r, name.toList = a :: r :=
    List.exists_cons_of_ne_nil fun h => hname.nonempty (String.toList_inj.1 h)
  refine ⟨hne _ (by simp), hne _ (by simp [har]), hne _ ?_, ?_⟩
  · intro h
    cases r with
    | nil =>
      have ha : a = '.' := by simpa [har] using (List.cons.inj (har ▸ h)).1
      exact hname.notCurrent (String.toList_inj.1 (by simp [har, ha]))
    | cons b s => simp [har] at h
  · rw [htext]
    simp [hname.noSlash, hslash]

theorem isEntryName_scoreFileName {c : Config} (hslash : '/' ∉ c.scoreExtension.toList)
    (hnul : '\x00' ∉ c.scoreExtension.toList) {name : String} (hname : IsEntryName name) :
    IsEntryName (c.scoreFileName name) :=
  ⟨isPiece_scoreFileName hslash hname.toIsPiece, by
    simp [Config.scoreFileName, hname.noNul, hnul]⟩

theorem scoreFileName_inj {c : Config} {name name' : String}
    (h : c.scoreFileName name = c.scoreFileName name') : name = name' := by
  have htext := congrArg String.toList h
  simp only [Config.scoreFileName, String.toList_append, List.append_assoc] at htext
  exact String.toList_inj.1 (List.append_cancel_right htext)

namespace Batch

variable (b : Batch)

def Layout.plain (base : FileSystem) (output : List String) : Layout where
  base := base
  output := output
  site := fun dataType => output ++ [dataType]
  place := fun p => output ++ [p.dataType] ++ [b.config.scoreFileName p.name]

variable {b}

theorem Layout.Keeps.refl {l : Layout} {ps : List ProjectEntry}
    (h : l.base.root.wellNamed = true) : l.Keeps ps l.base where
  working := rfl
  wellNamed := h
  within := .refl _
  file := fun _ he => Or.inl he
  folder := Or.inl
  apart := fun he _ => he

section
variable {base : FileSystem} {output : List String} {ps : List ProjectEntry}
  (hleads : base.Leads (.ofText b.output) output) (hfolder : base.root.FolderAt output)
include hleads hfolder

theorem Layout.site_plain {dataType : String} (htype : IsEntryName dataType)
    (hlink : FileSystem.NoLink base.root (output ++ [dataType])) :
    (Layout.plain b base output).Site b ps dataType := by
  have hchild := hleads.child hfolder htype hlink
  rw [← Path.ofText_joinText _ htype.toIsPiece] at hchild
  cases hat : base.root.at? (output ++ [dataType]) with
  | none => exact .missing hat rfl
  | some e =>
    cases e with
    | folder cs => exact .there hchild ⟨cs, hat⟩
    | link target => exact absurd hat (hlink target)
    | file bytes =>
      refine .never _ hat rfl rfl fun fs hk => ?_
      have hat' := hk.within.other rfl hat
      have hleads' := hchild.within hk.within hk.working (by simp [hat])
      have hlocate := hleads'.locate (by
        rw [Path.ofText_joinText _ htype.toIsPiece]
        exact Path.components_append_ne_nil _ _)
      simp [FileSystem.isFolder, FileSystem.entry, hlocate, hat', bind, Except.bind, Entry.isFolder]

theorem Layout.spot_plain (hslash : '/' ∉ b.config.scoreExtension.toList) {p : ProjectEntry}
    (htype : IsEntryName p.dataType) (hname : IsEntryName p.name)
    (hlink : FileSystem.NoLink base.root (output ++ [p.dataType]))
    (hplace : ∀ e, base.root.at? ((Layout.plain b base output).place p) = some e →
      e.isFolder = true) :
    (Layout.plain b base output).Spot b ps p := by
  have hpiece := isPiece_scoreFileName hslash hname.toIsPiece
  have hpath : Path.ofText (b.scoreFile p) =
      (Path.ofText (b.folderOf p)).append [b.config.scoreFileName p.name] :=
    Path.ofText_joinText _ hpiece
  by_cases hnul : '\x00' ∈ (b.config.scoreFileName p.name).toList
  · have hnul' : (Path.ofText (b.scoreFile p)).hasNul = true := by
      simp [hpath, Path.hasNul_append_singleton, hnul]
    exact .closed fun fs _ _ => ⟨FileSystem.isFile_nul hnul',
      fun text => ⟨_, FileSystem.writeText_nul hnul' text⟩, _, FileSystem.removeFile_nul hnul'⟩
  · have hfile : IsEntryName (b.config.scoreFileName p.name) := ⟨hpiece, hnul⟩
    cases hat : base.root.at? ((Layout.plain b base output).place p) with
    | none => exact .free _ _ _ ⟨hpath, hfile, rfl, hat, Or.inl ⟨rfl, rfl⟩⟩
    | some e =>
      obtain ⟨cs, rfl⟩ := FileSystem.isFolder_eq_true_iff.1 (hplace e hat)
      refine .closed fun fs hk hsite => ?_
      have hknown : (Layout.plain b base output).Site b ps p.dataType :=
        Layout.site_plain hleads hfolder htype hlink
      have hthere : fs.Leads (.ofText (b.folderOf p)) (output ++ [p.dataType]) :=
        hknown.leads hleads hfolder htype hk hsite
      obtain ⟨ds, hds⟩ : fs.root.FolderAt
          (output ++ [p.dataType] ++ [b.config.scoreFileName p.name]) :=
        hk.within.folder ⟨cs, hat⟩
      have hnoLink := FileSystem.noLink_of_folder ⟨ds, hds⟩
      rw [hpath, FileSystem.isFile_child hthere hsite hfile hnoLink]
      simp only [FileSystem.writeText_child hthere hsite hfile hnoLink,
        FileSystem.removeFile_child hthere hsite hfile, hds]
      exact ⟨rfl, fun _ => ⟨_, rfl⟩, _, rfl⟩

theorem Layout.fits_plain (hbase : base.root.wellNamed = true)
    (hslash : '/' ∉ b.config.scoreExtension.toList) {dataset : String}
    (hlisted : ∀ p ∈ ps, p.ListedIn dataset)
    (hlinks : ∀ p ∈ ps, FileSystem.NoLink base.root (output ++ [p.dataType]))
    (hplaces : ∀ p ∈ ps, ∀ e, base.root.at? ((Layout.plain b base output).place p) = some e →
      e.isFolder = true) :
    (Layout.plain b base output).Fits b ps base where
  dataType p hp := (hlisted p hp).dataType
  leads := hleads
  folder := hfolder
  keeps := .refl hbase
  site p hp := site_plain hleads hfolder (hlisted p hp).dataType (hlinks p hp)
  spot p hp := spot_plain hleads hfolder hslash (hlisted p hp).dataType (hlisted p hp).name
    (hlinks p hp) (hplaces p hp)
  distinct p hp q hq h := by
    obtain ⟨hsites, hfiles⟩ := List.append_inj' h rfl
    have htype : p.dataType = q.dataType := by simpa using hsites
    have hname : p.name = q.name := scoreFileName_inj (by simpa using hfiles)
    exact ProjectEntry.eq_of_id_eq (hlisted p hp) (hlisted q hq)
      (by rw [ProjectEntry.id, ProjectEntry.id, htype, hname])
  unmixed p hp q hq _ h := by
    have hlength := congrArg List.length h
    simp [Layout.plain] at hlength

end

end Batch

end PackageModularity

import PackageModularity.Proofs.Batch.PlainPlaces

/-!
Old scores among the files. Where no links stand at the places of the scores, those places fit every
tree with its output folder, whatever scores of earlier runs it has.
-/
namespace PackageModularity

open Entry (FolderAt Within Thinned)

namespace Entry

variable {root : Entry} (hroot : root.wellNamed = true) {here : List String} {n : String}
  {bytes : List UInt8} (hfile : root.at? (here ++ [n]) = some (.file bytes))
include hroot hfile

theorem at?_removed (names : List String) :
    (∃ cs ds, root.at? names = some (.folder cs) ∧
      (root.set none (here ++ [n])).at? names = some (.folder ds) ∧ names <+: here ++ [n]) ∨
    (here ++ [n] <+: names ∧ (root.set none (here ++ [n])).at? names = none ∧
      (root.at? names ≠ none → names = here ++ [n])) ∨
    (¬ names <+: here ++ [n] ∧ (root.set none (here ++ [n])).at? names = root.at? names) := by
  obtain ⟨cs, hcs⟩ : root.FolderAt here :=
    folderAt_of_append (List.cons_ne_nil n []) (by simp [hfile])
  rcases at?_set_cases hroot none hcs n names with
    ⟨more, e, rfl, he, hfolder, hset⟩ | ⟨more, rfl, hset⟩ | ⟨hbelow, -, hset⟩
  · obtain ⟨es, rfl⟩ := FileSystem.isFolder_eq_true_iff.1 hfolder
    have hnames : more ++ [n] ≠ [] := by simp
    obtain ⟨ds, hds⟩ := FileSystem.isFolder_eq_true_iff.1 (isFolder_set (.folder es) none hnames)
    exact Or.inl ⟨es, ds, he, hset.trans (congrArg some hds), by simp [List.append_assoc]⟩
  · refine Or.inr (Or.inl ⟨by simp, hset, fun hfound => ?_⟩)
    by_contra hne
    have hmore : more ≠ [] := fun h => hne (by rw [h])
    rw [List.append_cons, at?_append, hfile] at hfound
    exact hfound (at?_below rfl hmore)
  · exact Or.inr (Or.inr ⟨hbelow, hset⟩)

theorem within_removed : Within (root.set none (here ++ [n])) root where
  folder := by
    rintro names ⟨ds, hds⟩
    rcases at?_removed hroot hfile names with ⟨cs, _, hcs, -⟩ | ⟨-, hnone, -⟩ | ⟨-, hsame⟩
    · exact ⟨cs, hcs⟩
    · simp [hnone] at hds
    · exact ⟨ds, hsame.symm.trans hds⟩
  other := by
    intro names e he hat
    rcases at?_removed hroot hfile names with ⟨_, ds, -, hds, -⟩ | ⟨-, hnone, -⟩ | ⟨-, hsame⟩
    · rw [hat, Option.some.injEq] at hds
      simp [hds, isFolder] at he
    · simp [hnone] at hat
    · exact hsame.symm.trans hat

theorem thinned_removed : Thinned root (root.set none (here ++ [n])) where
  folder := by
    rintro names ⟨cs, hcs⟩
    rcases at?_removed hroot hfile names with ⟨_, ds, -, hds, -⟩ | ⟨-, -, hself⟩ | ⟨-, hsame⟩
    · exact ⟨ds, hds⟩
    · rw [hself (by simp [hcs]), hfile] at hcs
      simp at hcs
    · exact ⟨cs, hsame.trans hcs⟩
  link := by
    intro names target hat
    rcases at?_removed hroot hfile names with ⟨cs, _, hcs, -⟩ | ⟨-, -, hself⟩ | ⟨-, hsame⟩
    · simp [hat] at hcs
    · rw [hself (by simp [hat]), hfile] at hat
      simp at hat
    · exact hsame.trans hat

end Entry

namespace Batch

namespace Layout

variable {b : Batch} {l : Layout} {ps : List ProjectEntry}

theorem Keeps.removed {fs : FileSystem} (hk : l.Keeps ps fs) (hbase : l.base.root.wellNamed = true)
    {here : List String} {n : String} {bytes : List UInt8}
    (hfile : l.base.root.at? (here ++ [n]) = some (.file bytes))
    (hplace : ∃ p ∈ ps, here ++ [n] = l.place p) :
    Keeps { l with base := { l.base with root := l.base.root.set none (here ++ [n]) } } ps fs where
  working := hk.working
  wellNamed := hk.wellNamed
  within := (Entry.within_removed hbase hfile).trans hk.within
  file := by
    intro names e he hat
    refine (hk.file he hat).elim (fun hat => ?_) Or.inr
    rcases Entry.at?_removed hbase hfile names with ⟨cs, _, hcs, -⟩ | ⟨-, -, hself⟩ | ⟨-, hsame⟩
    · rw [hat, Option.some.injEq] at hcs
      simp [hcs, Entry.isFolder] at he
    · obtain ⟨p, hp, hplace⟩ := hplace
      exact Or.inr ⟨p, hp, (hself (by simp [hat])).trans hplace⟩
    · exact Or.inl (hsame.trans hat)
  folder := fun hfolder =>
    (hk.folder hfolder).imp_left (Entry.thinned_removed hbase hfile).folder
  apart := by
    intro names e hat hapart
    obtain ⟨p, hp, hplace⟩ := hplace
    rcases Entry.at?_removed hbase hfile names with ⟨_, _, -, -, habove⟩ | ⟨-, hnone, -⟩ | ⟨-, hsame⟩
    · exact absurd (hplace ▸ habove) (hapart p hp).1
    · simp [hnone] at hat
    · exact hk.apart (hsame.symm.trans hat) hapart

section
variable {made : FileSystem} {output : List String} (hmade : made.root.wellNamed = true)
include hmade

/-- The bare tree of a tree with scores: it lacks the files at the places of some projects. -/
theorem exists_bare (hlinks : ∀ p ∈ ps, FileSystem.NoLink made.root
      (output ++ [p.dataType] ++ [b.config.scoreFileName p.name]))
    {qs : List ProjectEntry} (hqs : ∀ p ∈ qs, p ∈ ps) :
    ∃ base, (plain b base output).Keeps ps made ∧ base.root.wellNamed = true ∧
      Thinned made.root base.root ∧
      ∀ p ∈ qs, ∀ e, base.root.at? (output ++ [p.dataType] ++ [b.config.scoreFileName p.name]) =
        some e → e.isFolder = true := by
  -- the old scores are taken away one by one
  induction qs with
  | nil =>
    exact ⟨made, .refl hmade, hmade, (Within.refl _).thinned, fun p hp => absurd hp List.not_mem_nil⟩
  | cons p qs ih =>
    obtain ⟨hp, hqs⟩ := List.forall_mem_cons.1 hqs
    obtain ⟨base, hk, hbase, hthinned, hqs⟩ := ih hqs
    cases hat : base.root.at? (output ++ [p.dataType] ++ [b.config.scoreFileName p.name]) with
    | none =>
      refine ⟨base, hk, hbase, hthinned, List.forall_mem_cons.2 ⟨fun e he => ?_, hqs⟩⟩
      exact absurd (he.symm.trans hat) (Option.some_ne_none _)
    | some e =>
      cases e with
      | folder cs =>
        refine ⟨base, hk, hbase, hthinned, List.forall_mem_cons.2 ⟨fun e he => ?_, hqs⟩⟩
        rw [← Option.some.inj (hat.symm.trans he)]
        rfl
      | link target => exact absurd (hk.within.other rfl hat) (hlinks p hp target)
      | file bytes =>
        have hwithin := Entry.within_removed hbase hat
        refine ⟨_, hk.removed hbase hat ⟨p, hp, rfl⟩, ?_,
          hthinned.trans (Entry.thinned_removed hbase hat), List.forall_mem_cons.2 ⟨?_, ?_⟩⟩
        · exact Entry.wellNamed_set hbase (fun e he => by simp at he)
            (Entry.wellNamed_at? hbase hat).1
        · intro e he
          by_contra hfile
          have hsame := hwithin.other (by simpa using hfile) he
          rcases Entry.at?_removed hbase hat (output ++ [p.dataType] ++
            [b.config.scoreFileName p.name]) with ⟨_, _, hcs, -⟩ | ⟨-, hnone, -⟩ | ⟨hnot, -⟩
          · cases hat.symm.trans hcs
          · exact absurd (he.symm.trans hnone) (Option.some_ne_none _)
          · exact hnot List.prefix_rfl
        · intro q hq e he
          by_contra hfile
          exact hfile (hqs q hq e (hwithin.other (by simpa using hfile) he))

theorem exists_fits_plain (hleads : made.Leads (.ofText b.output) output)
    (hfolder : made.root.FolderAt output) (hslash : '/' ∉ b.config.scoreExtension.toList)
    {dataset : String} (hlisted : ∀ p ∈ ps, p.ListedIn dataset)
    (hlinks : ∀ p ∈ ps, FileSystem.NoLink made.root (output ++ [p.dataType]) ∧
      FileSystem.NoLink made.root (output ++ [p.dataType] ++ [b.config.scoreFileName p.name])) :
    ∃ base, (plain b base output).Fits b ps made ∧ Thinned made.root base.root := by
  obtain ⟨base, hk, hbase, hthinned, hplaces⟩ :=
    exists_bare hmade (fun p hp => (hlinks p hp).2) fun p (hp : p ∈ ps) => hp
  have hfolder' := hthinned.folder hfolder
  have hleads' : base.Leads (.ofText b.output) output :=
    hleads.thinned hthinned hk.working.symm (FileSystem.noLink_of_folder hfolder')
  have hsites : ∀ p ∈ ps, FileSystem.NoLink base.root (output ++ [p.dataType]) :=
    fun p hp target htarget => (hlinks p hp).1 target (hk.within.other rfl htarget)
  exact ⟨base, { fits_plain hleads' hfolder' hbase hslash hlisted hsites hplaces with keeps := hk },
    hthinned⟩

end

end Layout

/-- No two projects of a batch share a score file. -/
def Separate (b : Batch) (fs : FileSystem) (projects : List ProjectEntry) : Prop :=
  ∀ made, fs.makeFolders (.ofText b.output) = .ok made → ∃ l : Layout, l.Fits b projects made

/-- If no links stand at the places of the scores, no two projects share one. -/
theorem separate_of_unlinked {b : Batch} {fs : FileSystem} {ps : List ProjectEntry}
    (hfs : fs.WellFormed) (hslash : '/' ∉ b.config.scoreExtension.toList) {dataset : String}
    (hlisted : ∀ p ∈ ps, p.ListedIn dataset)
    (hlinks : ∀ made output, fs.makeFolders (.ofText b.output) = .ok made →
      made.Leads (.ofText b.output) output → ∀ p ∈ ps,
        FileSystem.NoLink made.root (output ++ [p.dataType]) ∧
        FileSystem.NoLink made.root (output ++ [p.dataType] ++ [b.config.scoreFileName p.name])) :
    b.Separate fs ps := by
  intro made hmake
  obtain ⟨hgrown, output, hleads, hfolder⟩ :=
    FileSystem.leads_of_makeFolders hfs.wellNamed hfs.working (Path.hasPieces_ofText _) hmake
  obtain ⟨base, hfits, -⟩ := Layout.exists_fits_plain hgrown.wellNamed hleads hfolder hslash hlisted
    (hlinks made output hmake hleads)
  exact ⟨_, hfits⟩

end Batch

end PackageModularity

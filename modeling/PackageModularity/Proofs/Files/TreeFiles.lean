import Mathlib.Data.List.Nodup
import PackageModularity.Proofs.Files.EntryAt

/-!
The files of a tree are the regular files that names lead to from its root. Every one of them is
listed once.
-/
namespace PackageModularity.Entry

theorem mem_filesOf {cs : List (String × Entry)} {f : List String × List UInt8} :
    f ∈ filesOf cs ↔ ∃ c ∈ cs, ∃ g ∈ c.2.files, (c.1 :: g.1, g.2) = f := by
  induction cs with
  | nil => simp [filesOf]
  | cons c r ih =>
    obtain ⟨name, e⟩ := c
    rw [filesOf, List.mem_append, List.mem_map, ih, List.exists_mem_cons_iff]

theorem mem_files_iff {e : Entry} (he : e.wellNamed = true) (names : List String)
    (bytes : List UInt8) : (names, bytes) ∈ e.files ↔ e.at? names = some (.file bytes) := by
  induction names generalizing e with
  | nil =>
    cases e with
    | file content => simp [files, at?, eq_comm]
    | link target => simp [files, at?]
    | folder cs => simp [files, at?, mem_filesOf]
  | cons n r ih =>
    cases e with
    | file content => simp [files, at?, child?, children]
    | link target => simp [files, at?, child?, children]
    | folder cs =>
      obtain ⟨hnodup, hcs⟩ := (wellNamed_folder_iff cs).1 he
      rw [files, mem_filesOf, at?, Option.bind_eq_some_iff]
      constructor
      · rintro ⟨⟨name, c⟩, hc, g, hg, heq⟩
        obtain ⟨⟨rfl, rfl⟩, rfl⟩ : (name = n ∧ g.1 = r) ∧ g.2 = bytes := by simpa using heq
        exact ⟨c, (lookup_eq_some_iff hnodup name c).2 hc, (ih (hcs _ hc).2).1 hg⟩
      · rintro ⟨c, hc, hrest⟩
        have hmem := mem_of_lookup hc
        exact ⟨(n, c), hmem, (r, bytes), (ih (hcs _ hmem).2).2 hrest, rfl⟩

theorem exists_file_iff {e : Entry} (he : e.wellNamed = true) (names : List String) :
    (∃ bytes, e.at? names = some (.file bytes)) ↔ names ∈ e.files.map (·.1) := by
  simp only [← mem_files_iff he, List.mem_map, Prod.exists, exists_and_right, exists_eq_right]

mutual

theorem nodup_files : (e : Entry) → e.wellNamed = true → (e.files.map (·.1)).Nodup
  | .file _, _ => by simp [files]
  | .link _, _ => by simp [files]
  | .folder cs, h => nodup_filesOf cs h

theorem nodup_filesOf : (cs : List (String × Entry)) → wellNamedAll cs = true →
    ((filesOf cs).map (·.1)).Nodup
  | [], _ => by simp [filesOf]
  | (name, e) :: r, h => by
    simp only [wellNamedAll, Bool.and_eq_true, decide_eq_true_eq] at h
    obtain ⟨⟨⟨-, hname⟩, he⟩, hr⟩ := h
    rw [filesOf, List.map_append, List.map_map]
    refine List.Nodup.append ?_ (nodup_filesOf r hr) ?_
    · have hcons : ((e.files.map (·.1)).map (name :: ·)).Nodup :=
        (nodup_files e he).map (List.cons_injective)
      rwa [List.map_map] at hcons
    · -- the later files lie below other names
      intro names hleft hright
      obtain ⟨f, -, rfl⟩ := List.mem_map.1 hleft
      obtain ⟨g, hg, hnames⟩ := List.mem_map.1 hright
      obtain ⟨c, hc, d, -, rfl⟩ := mem_filesOf.1 hg
      obtain ⟨rfl, -⟩ := List.cons.inj hnames
      exact hname (List.mem_map_of_mem hc)

end

end PackageModularity.Entry

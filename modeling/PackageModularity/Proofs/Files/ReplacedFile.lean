import PackageModularity.Proofs.Files.EntryOperations

/-!
A file that is put in a place of a tree, changed or removed there. All that has other names stays as
it is, and paths go on leading to where they led.
-/
namespace PackageModularity

open Entry (FolderAt Within Thinned)

namespace Entry

/-- What is no folder stands in a place of one tree as in that of another. -/
def SameFile (place : List String) (old new : Entry) : Prop :=
  ∀ e, e.isFolder = false → (new.at? place = some e ↔ old.at? place = some e)

/-- Two trees have the same in all places but one: the same entries, or folders. -/
def SameElsewhere (place : List String) (old new : Entry) : Prop :=
  ∀ names, names ≠ place → old.FolderAt names ∧ new.FolderAt names ∨ new.at? names = old.at? names

/-- Two trees differ at most in the order of the entries in their folders. -/
def Reordered (old new : Entry) : Prop := Within old new ∧ Within new old

mutual

def links : Entry → List (List String)
  | .file _ => []
  | .link _ => [[]]
  | .folder cs => linksOf cs

def linksOf : List (String × Entry) → List (List String)
  | [] => []
  | (n, e) :: r => (links e).map (n :: ·) ++ linksOf r

end

def FileOrFree (root : Entry) (place : List String) : Prop :=
  ∀ e, root.at? place = some e → e.isFile = true

variable {root old new : Entry} {place names : List String}

theorem mem_linksOf {cs : List (String × Entry)} {n : String} {e : Entry} (h : (n, e) ∈ cs)
    (hlink : names ∈ e.links) : n :: names ∈ linksOf cs := by
  induction cs with
  | nil => simp at h
  | cons c cs ih =>
    rw [linksOf, List.mem_append]
    rcases List.mem_cons.1 h with rfl | h
    · exact Or.inl (List.mem_map_of_mem hlink)
    · exact Or.inr (ih h)

theorem mem_links {target : String} (h : root.at? names = some (.link target)) :
    names ∈ root.links := by
  induction names generalizing root with
  | nil =>
    obtain rfl := Option.some.inj h
    simp [links]
  | cons n r ih =>
    obtain ⟨c, hc, hr⟩ := Option.bind_eq_some_iff.1 h
    cases root with
    | file bytes => simp [child?, children] at hc
    | link t => simp [child?, children] at hc
    | folder cs => exact mem_linksOf (mem_of_lookup hc) (ih hr)

theorem SameFile.refl (place : List String) (root : Entry) : SameFile place root root :=
  fun _ _ => Iff.rfl

theorem SameElsewhere.symm (h : SameElsewhere place old new) : SameElsewhere place new old :=
  fun names hne => (h names hne).imp And.symm Eq.symm

theorem SameElsewhere.sameFile (h : SameElsewhere place old new) (hne : names ≠ place) :
    SameFile names old new := by
  intro e he
  rcases h names hne with ⟨⟨cs, hcs⟩, ds, hds⟩ | hsame
  · constructor <;> intro hat
    · obtain rfl := Option.some.inj (hds.symm.trans hat)
      simp [isFolder] at he
    · obtain rfl := Option.some.inj (hcs.symm.trans hat)
      simp [isFolder] at he
  · rw [hsame]

theorem SameElsewhere.folderAt (h : SameElsewhere place old new) (hne : names ≠ place)
    (hold : old.FolderAt names) : new.FolderAt names := by
  rcases h names hne with ⟨-, hnew⟩ | hsame
  · exact hnew
  · rwa [FolderAt, hsame]

theorem FileOrFree.not_folderAt (h : FileOrFree root place) : ¬ root.FolderAt place := by
  rintro ⟨cs, hcs⟩
  simpa [isFile] using h _ hcs

theorem FileOrFree.noLink (h : FileOrFree root place) : FileSystem.NoLink root place := by
  intro target htarget
  simpa [isFile] using h _ htarget

theorem sameElsewhere_set (hroot : root.wellNamed = true) {new : Option Entry}
    (hnew : ∀ e, new = some e → e.isFolder = false) {here : List String} {n : String}
    (hhere : root.FolderAt here) (hplace : ¬ root.FolderAt (here ++ [n])) :
    SameElsewhere (here ++ [n]) root (root.set new (here ++ [n])) := by
  intro names hne
  obtain ⟨cs, hcs⟩ := hhere
  rcases at?_set_cases hroot new hcs n names with
    ⟨more, e, rfl, he, hfolder, hset⟩ | ⟨more, rfl, hset⟩ | ⟨-, -, hset⟩
  · left
    constructor
    · cases e with
      | folder ds => exact ⟨ds, he⟩
      | file bytes => simp [isFolder] at hfolder
      | link target => simp [isFolder] at hfolder
    · obtain ⟨m, r, hmore⟩ := List.exists_cons_of_ne_nil
        (List.append_ne_nil_of_right_ne_nil more (List.cons_ne_nil n []))
      rw [hmore] at hset
      exact ⟨_, hset⟩
  · right
    have hbelow : more ≠ [] := by
      rintro rfl
      exact hne rfl
    have hold : root.at? (here ++ n :: more) = none := by
      rw [List.append_cons]
      by_contra hfound
      exact hplace (folderAt_of_append hbelow hfound)
    rw [hset, hold]
    cases new with
    | none => rfl
    | some e => exact at?_below (hnew e rfl) hbelow
  · exact Or.inr hset

theorem alterChild_same {n : String} {f : Option Entry → Option Entry} {e : Entry}
    {cs : List (String × Entry)} (h : cs.lookup n = some e) (hf : f (some e) = some e) :
    alterChild n f cs = cs := by
  induction cs with
  | nil => simp at h
  | cons c cs ih =>
    obtain ⟨k, d⟩ := c
    by_cases hk : k = n
    · subst hk
      obtain rfl : d = e := by simpa using h
      simp [alterChild, hf]
    · rw [lookup_cons, if_neg (Ne.symm hk)] at h
      simp [alterChild, hk, ih h]

theorem set_same {e : Entry} (h : root.at? names = some e) : root.set (some e) names = root := by
  induction names generalizing root with
  | nil => exact (Option.some.inj h).symm
  | cons n r ih =>
    obtain ⟨c, hc, hr⟩ := Option.bind_eq_some_iff.1 h
    cases root with
    | file bytes => simp [child?, children] at hc
    | link target => simp [child?, children] at hc
    | folder cs =>
      refine congrArg Entry.folder (alterChild_same hc ?_)
      cases r with
      | nil => exact hr.symm
      | cons m s => exact congrArg some (ih hr)

end Entry

namespace FileSystem

/-- One place has a file, or none, before and after, and all other places have the same. -/
structure Replaced (place : List String) (old new : FileSystem) : Prop where
  elsewhere : Entry.SameElsewhere place old.root new.root
  before : Entry.FileOrFree old.root place
  after : Entry.FileOrFree new.root place
  working : new.working = old.working

def Unreached (root : Entry) (place : List String) : Prop :=
  ∀ here n target, root.at? (here ++ [n]) = some (.link target) →
    follow root 41 here [.name n] ≠ .ok place

theorem unreached_of_links {root : Entry} {place : List String}
    (h : ∀ names ∈ root.links, follow root 41 names.dropLast (names.getLast?.toList.map .name) ≠
      .ok place) : Unreached root place := by
  intro here n target hlink
  simpa using h _ (Entry.mem_links hlink)

/-- Under a name in a folder stands a file, or a link that leads to one. -/
def HoldsFile (fs : FileSystem) (text : String) (here : List String) (n : String)
    (bytes : List UInt8) : Prop :=
  fs.root.at? (here ++ [n]) = some (.file bytes) ∨
  ∃ target names, fs.root.at? (here ++ [n]) = some (.link target) ∧
    fs.Leads (.ofText (Path.joinText text n)) names ∧ fs.root.at? names = some (.file bytes)

variable {fs fs' : FileSystem} {text n : String} {here place names : List String}
  {bytes : List UInt8}

theorem HoldsFile.found (h : fs.HoldsFile text here n bytes) :
    fs.root.at? (here ++ [n]) ≠ none := by
  rcases h with hfile | ⟨target, names, hlink, -⟩
  · simp [hfile]
  · simp [hlink]

theorem entry_eq_file_iff (h : fs.FolderText text here) (hn : fs.root.at? (here ++ [n]) ≠ none) :
    fs.entry (.ofText (Path.joinText text n)) = .ok (.file bytes) ↔
      fs.HoldsFile text here n bytes := by
  have hname : IsEntryName n := Entry.isEntryName_of_found h.wellNamed hn (by simp)
  obtain ⟨e, he⟩ := Option.ne_none_iff_exists'.1 hn
  have hpath := Path.ofText_joinText text hname.toIsPiece
  cases e with
  | link target =>
    have hwritten : (Path.ofText (Path.joinText text n)).components ≠ [] := by
      rw [hpath]
      exact Path.components_append_ne_nil _ _
    simp [entry_eq_ok_iff, HoldsFile, he, hwritten]
  | file b =>
    simp [hpath, entry_child h.leads h.folder hname (noLink_of_file he), HoldsFile, he]
  | folder cs =>
    simp [hpath, entry_child h.leads h.folder hname (noLink_of_folder ⟨cs, he⟩), HoldsFile, he]

theorem isFile_eq_true_iff {p : Path} :
    fs.isFile p = true ↔ ∃ bytes, fs.entry p = .ok (.file bytes) := by
  rw [isFile]
  cases fs.entry p with
  | error why => simp
  | ok e => cases e <;> simp [Entry.isFile]

theorem HoldsFile.within (h : fs.HoldsFile text here n bytes) (hw : Within fs.root fs'.root)
    (hworking : fs'.working = fs.working) : fs'.HoldsFile text here n bytes := by
  rcases h with hfile | ⟨target, names, hlink, hleads, hfile⟩
  · exact Or.inl (hw.other rfl hfile)
  · exact Or.inr ⟨target, names, hw.other rfl hlink,
      hleads.within hw hworking (by simp [hfile]), hw.other rfl hfile⟩

theorem follow_of_leads {q : Path} (hq : fs.Leads q here)
    (h : fs.Leads (q.append [n]) names) : follow fs.root 41 here [.name n] = .ok names := by
  obtain ⟨m, hm, hmore⟩ := follow_append hq.follow
  have hfollow := h.follow
  rw [Path.components_append_singleton, hmore] at hfollow
  exact follow_thinned (Within.refl fs.root).thinned (n := m + 1) hm hfollow id

namespace Replaced

theorem symm (h : Replaced place fs fs') : Replaced place fs' fs :=
  ⟨h.elsewhere.symm, h.after, h.before, h.working.symm⟩

theorem thinned (h : Replaced place fs fs') : Thinned fs.root fs'.root where
  folder hfolder := h.elsewhere.folderAt (fun heq => h.before.not_folderAt (heq ▸ hfolder)) hfolder
  link hlink := (h.elsewhere.sameFile (fun heq => h.before.noLink _ (heq ▸ hlink)) _ rfl).2 hlink

theorem noLink (h : Replaced place fs fs') (hlink : NoLink fs.root names) :
    NoLink fs'.root names := by
  intro target htarget
  exact hlink target (h.symm.thinned.link htarget)

theorem leads (h : Replaced place fs fs') {p : Path} (hleads : fs.Leads p names) :
    fs'.Leads p names :=
  ⟨hleads.noNul, by
    rw [h.working]
    exact follow_thinned h.thinned le_rfl hleads.follow h.noLink⟩

theorem unreached (h : Replaced place fs fs') (hplace : Unreached fs.root place) :
    Unreached fs'.root place := by
  intro here n target hlink hfollow
  exact hplace here n target (h.symm.thinned.link hlink)
    (follow_thinned h.symm.thinned le_rfl hfollow h.symm.noLink)

theorem holdsFile (h : Replaced place fs fs') (hplace : Unreached fs.root place)
    (hleads : fs.Leads (.ofText text) here) (hne : here ++ [n] ≠ place) (hname : IsPiece n)
    (hheld : fs.HoldsFile text here n bytes) : fs'.HoldsFile text here n bytes := by
  rcases hheld with hfile | ⟨target, names, hlink, hnames, hfile⟩
  · exact Or.inl ((h.elsewhere.sameFile hne _ rfl).2 hfile)
  · have helsewhere : names ≠ place := by
      rintro rfl
      rw [Path.ofText_joinText text hname] at hnames
      exact hplace here n target hlink (follow_of_leads hleads hnames)
    exact Or.inr ⟨target, names, h.thinned.link hlink, h.leads hnames,
      (h.elsewhere.sameFile helsewhere _ rfl).2 hfile⟩

end Replaced

section
variable (h : fs.FolderText text here)
include h

theorem replaced_set (hplace : Entry.FileOrFree fs.root (here ++ [n])) (bytes : List UInt8) :
    Replaced (here ++ [n]) fs
      { fs with root := fs.root.set (some (.file bytes)) (here ++ [n]) } := by
  refine ⟨Entry.sameElsewhere_set h.wellNamed ?_ h.folder hplace.not_folderAt, hplace, ?_, rfl⟩
  · rintro e ⟨⟩
    rfl
  · intro e he
    obtain ⟨cs, hcs⟩ := h.folder
    obtain rfl := Option.some.inj ((Entry.at?_set_self h.wellNamed _ hcs n).symm.trans he)
    rfl

variable (hn : IsEntryName n)
include hn

theorem Replaced.folderText (hreplaced : Replaced (here ++ [n]) fs fs')
    (hset : fs' = { fs with root := fs.root.set (some (.file bytes)) (here ++ [n]) }) :
    fs'.FolderText text here := by
  refine ⟨?_, h.written, hreplaced.leads h.leads, hreplaced.thinned.folder h.folder⟩
  rw [hset]
  refine Entry.wellNamed_set h.wellNamed ?_ ?_
  · rintro e ⟨⟩
    rfl
  · obtain ⟨cs, hcs⟩ := h.folder
    rw [List.forall_mem_append, List.forall_mem_singleton]
    exact ⟨(Entry.wellNamed_at? h.wellNamed hcs).1, hn⟩

/-- A text written into a file of a folder is there, and writing it once more changes nothing. -/
theorem replaced_of_writeText (hlink : NoLink fs.root (here ++ [n])) {content : String}
    (hwrite : fs.writeText (.ofText (Path.joinText text n)) content = .ok fs') :
    Replaced (here ++ [n]) fs fs' ∧ fs'.FolderText text here ∧
      fs'.root.at? (here ++ [n]) = some (.file (Utf8.encode content)) ∧
      fs'.writeText (.ofText (Path.joinText text n)) content = .ok fs' := by
  rw [Path.ofText_joinText text hn.toIsPiece] at hwrite ⊢
  obtain ⟨hplace, hset⟩ : Entry.FileOrFree fs.root (here ++ [n]) ∧
      fs' = { fs with root := fs.root.set (some (.file (Utf8.encode content))) (here ++ [n]) } := by
    rw [writeText_child h.leads h.folder hn hlink] at hwrite
    split at hwrite
    · simp at hwrite
    · rename_i hfile
      refine ⟨fun e he => ?_, (Except.ok.inj hwrite).symm⟩
      cases e with
      | file bytes => rfl
      | folder cs => exact absurd he (hfile cs)
      | link target => exact absurd he (hlink target)
  have hreplaced : Replaced (here ++ [n]) fs fs' := by
    rw [hset]
    exact replaced_set h hplace _
  have h' := hreplaced.folderText h hn hset
  have hat : fs'.root.at? (here ++ [n]) = some (.file (Utf8.encode content)) := by
    obtain ⟨cs, hcs⟩ := h.folder
    rw [hset]
    exact Entry.at?_set_self h.wellNamed _ hcs n
  refine ⟨hreplaced, h', hat, ?_⟩
  rw [writeText_child h'.leads h'.folder hn (hreplaced.noLink hlink), hat]
  dsimp only
  rw [Entry.set_same hat]

end

end FileSystem

end PackageModularity

import PackageModularity.Project.Index
import PackageModularity.Proofs.Text.EncodedText

/-!
Going through the files of a project. Every file is counted once, as parsed or as a miss, and the
units are those that the files give one by one.
-/
namespace PackageModularity

/-! ### Reading -/

namespace ParseQueue

def request? (root : Path) (file : List String × List UInt8) : Option ParseRequest :=
  (Utf8.decode? file.2).map fun text => ⟨root.append file.1, text⟩

theorem add_eq (root : Path) (q : ParseQueue) (file : List String × List UInt8) :
    q.add root file = match request? root file with
      | some r => ⟨q.requests ++ [r], q.stats⟩
      | none => ⟨q.requests, q.stats.miss⟩ := by
  rw [add, request?]
  cases Utf8.decode? file.2 <;> rfl

theorem foldl_add (root : Path) (files : List (List String × List UInt8)) (q : ParseQueue) :
    ∃ stats, files.foldl (add root) q = ⟨q.requests ++ files.filterMap (request? root), stats⟩ ∧
      stats.files = q.stats.files ∧ stats.parsed = q.stats.parsed ∧
      stats.misses + (files.filterMap (request? root)).length = q.stats.misses + files.length := by
  -- over the files, from any queue, since each file leaves another one to the rest
  induction files generalizing q with
  | nil => exact ⟨q.stats, by simp, rfl, rfl, rfl⟩
  | cons file files ih =>
    obtain ⟨stats, hfold, hfiles, hparsed, hmisses⟩ := ih (q.add root file)
    refine ⟨stats, ?_⟩
    rw [List.foldl_cons, hfold, List.filterMap_cons]
    rw [add_eq] at hfiles hparsed hmisses ⊢
    cases h : request? root file with
    | some r =>
      rw [h] at hfiles hparsed hmisses
      exact ⟨by simp, hfiles, hparsed, by simp at hmisses ⊢; omega⟩
    | none =>
      rw [h] at hfiles hparsed hmisses
      exact ⟨rfl, hfiles, hparsed, by simp [ParseStats.miss] at hmisses ⊢; omega⟩

end ParseQueue

/-! ### Taking the answers -/

namespace ParsedUnits

def unit? (answer : Path × Option SyntaxTree) : Option SourceUnit :=
  answer.2.bind fun tree =>
    if isReadable answer.1 then some (SourceUnit.ofTree defaultMaxDepth answer.1 tree) else none

theorem add_eq (us : ParsedUnits) (answer : Path × Option SyntaxTree) :
    us.add answer = match unit? answer with
      | some u => ⟨us.units ++ [u], us.stats.hit⟩
      | none => ⟨us.units, us.stats.miss⟩ := by
  rw [add, unit?]
  cases answer.2 with
  | none => rfl
  | some tree => cases isReadable answer.1 <;> rfl

theorem foldl_add (answers : List (Path × Option SyntaxTree)) (us : ParsedUnits) :
    ∃ stats, answers.foldl add us = ⟨us.units ++ answers.filterMap unit?, stats⟩ ∧
      stats.files = us.stats.files ∧
      stats.parsed = us.stats.parsed + (answers.filterMap unit?).length ∧
      stats.parsed + stats.misses = us.stats.parsed + us.stats.misses + answers.length := by
  induction answers generalizing us with
  | nil => exact ⟨us.stats, by simp, rfl, rfl, rfl⟩
  | cons answer answers ih =>
    obtain ⟨stats, hfold, hfiles, hparsed, htotal⟩ := ih (us.add answer)
    refine ⟨stats, ?_⟩
    rw [List.foldl_cons, hfold, List.filterMap_cons]
    rw [add_eq] at hfiles hparsed htotal ⊢
    cases h : unit? answer with
    | some u =>
      rw [h] at hfiles hparsed htotal
      simp only [ParseStats.hit] at hparsed htotal
      exact ⟨by simp, hfiles, by simp; omega, by simp; omega⟩
    | none =>
      rw [h] at hfiles hparsed htotal
      simp only [ParseStats.miss] at hparsed htotal
      exact ⟨rfl, hfiles, hparsed, by simp; omega⟩

end ParsedUnits

/-! ### The whole index -/

namespace ProjectIndex

def unit? (parse : Parser) (root : Path) (file : List String × List UInt8) : Option SourceUnit :=
  (ParseQueue.request? root file).bind fun r => ParsedUnits.unit? (r.path, parse r.text)

theorem unit?_eq_some_iff {parse : Parser} {root : Path} {file : List String × List UInt8}
    {u : SourceUnit} : unit? parse root file = some u ↔
      ∃ text tree, Utf8.encode text = file.2 ∧ parse text = some tree ∧
        isReadable (root.append file.1) = true ∧
        u = SourceUnit.ofTree defaultMaxDepth (root.append file.1) tree := by
  simp only [unit?, ParseQueue.request?, ParsedUnits.unit?, Option.bind_eq_some_iff,
    Option.map_eq_some_iff, Utf8.decode?_eq_some_iff]
  constructor
  · rintro ⟨_, ⟨text, htext, rfl⟩, tree, htree, hu⟩
    split at hu
    · exact ⟨text, tree, htext, htree, ‹_›, (Option.some.inj hu).symm⟩
    · simp at hu
  · rintro ⟨text, tree, htext, htree, hreadable, rfl⟩
    exact ⟨_, ⟨text, htext, rfl⟩, tree, htree, by simp [hreadable]⟩

theorem path_of_unit? {base : Path} {file : List String × List UInt8} {u : SourceUnit}
    (h : unit? parse base file = some u) : u.path = base.append file.1 := by
  obtain ⟨text, tree, -, -, -, rfl⟩ := unit?_eq_some_iff.1 h
  rfl

/-- An index counts every file once and has the units of the files in their order. -/
structure Accounts (parse : Parser) (r : Registry) (files : List (List String × List UInt8))
    (i : ProjectIndex) : Prop where
  registry : i.registry = r
  units : i.units = files.filterMap (unit? parse r.root)
  table : i.table = TypeTable.ofUnits i.units
  files : i.stats.files = files.length
  total : i.stats.files = i.stats.parsed + i.stats.misses
  parsed : i.units.length = i.stats.parsed

theorem filterMap_answers (parse : Parser) (root : Path)
    (files : List (List String × List UInt8)) :
    (parse.answers (files.filterMap (ParseQueue.request? root))).filterMap ParsedUnits.unit? =
      files.filterMap (unit? parse root) := by
  rw [Parser.answers, List.filterMap_map, List.filterMap_filterMap]
  rfl

theorem accounts_ofFiles (parse : Parser) (r : Registry)
    (files : List (List String × List UInt8)) : Accounts parse r files (ofFiles parse r files) := by
  obtain ⟨queued, hqueue, hfiles, hparsed, hmisses⟩ :=
    ParseQueue.foldl_add r.root files ⟨[], ⟨files.length, 0, 0⟩⟩
  obtain ⟨stats, hunits, hfiles', hparsed', htotal⟩ := ParsedUnits.foldl_add
    (parse.answers (files.filterMap (ParseQueue.request? r.root))) ⟨[], queued⟩
  rw [filterMap_answers] at hunits hparsed'
  rw [Parser.answers, List.length_map] at htotal
  have hof : ofFiles parse r files = ⟨r, files.filterMap (unit? parse r.root),
      TypeTable.ofUnits (files.filterMap (unit? parse r.root)), stats⟩ := by
    simp only [ofFiles, hqueue, List.nil_append, hunits]
  simp only at hfiles hparsed hmisses hfiles' hparsed' htotal
  rw [hof]
  exact ⟨rfl, rfl, rfl, hfiles'.trans hfiles, by simp only; omega, by simp only; omega⟩

end ProjectIndex

end PackageModularity

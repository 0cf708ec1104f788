import Mathlib.Data.List.Sort
import PackageModularity.Proofs.Source.RecordedOccurrences

/-!
Calls and member accesses in the headers of named types, such as the arguments of their annotations.
The reading of a file goes on from a named type to its body only, so of all that occurs in a file it
records what lies in no header.
-/
namespace PackageModularity

namespace SyntaxTree

def positions : Nat → SyntaxTree → List (List Nat)
  | 0, _ => []
  | depth + 1, t => [] :: t.children.zipIdx.flatMap fun e => (positions depth e.1).map (e.2 :: ·)

theorem mem_positions_iff {depth : Nat} {t : SyntaxTree} {p : List Nat} :
    p ∈ positions depth t ↔ p.length < depth ∧ ∃ u, t.at? p = some u := by
  induction depth generalizing t p with
  | zero => simp [positions]
  | succ depth ih =>
    cases p with
    | nil => simp [positions, at?]
    | cons i p =>
      simp only [positions, List.mem_cons, reduceCtorEq, false_or, List.mem_flatMap, List.mem_map,
        List.cons.injEq, Prod.exists, List.mem_zipIdx_iff_getElem?]
      constructor
      · rintro ⟨child, j, hchild, q, hq, rfl, rfl⟩
        obtain ⟨hlength, u, hu⟩ := ih.1 hq
        exact ⟨Nat.succ_lt_succ hlength, u, by rw [at?, hchild]; exact hu⟩
      · rintro ⟨hlength, u, hu⟩
        obtain ⟨child, hchild, hu⟩ := Option.bind_eq_some_iff.1 hu
        exact ⟨child, i, hchild, p, ih.2 ⟨Nat.lt_of_succ_lt_succ hlength, u, hu⟩, rfl, rfl⟩

theorem pairwise_positions (depth : Nat) (t : SyntaxTree) :
    (positions depth t).Pairwise (· < ·) := by
  induction depth generalizing t with
  | zero => exact List.Pairwise.nil
  | succ depth ih =>
    refine List.pairwise_cons.2 ⟨fun p hp => ?_, List.pairwise_flatMap.2 ⟨fun e _ => ?_, ?_⟩⟩
    · obtain ⟨e, -, hp⟩ := List.mem_flatMap.1 hp
      obtain ⟨q, -, rfl⟩ := List.mem_map.1 hp
      exact List.nil_lt_cons _ _
    · exact List.pairwise_map.2 ((ih e.1).imp fun hlt => List.cons_lt_cons_iff.2 (.inr ⟨rfl, hlt⟩))
    · refine (pairwise_zipIdx t.children).imp fun {e e'} hlt p hp p' hp' => ?_
      obtain ⟨q, -, rfl⟩ := List.mem_map.1 hp
      obtain ⟨q', -, rfl⟩ := List.mem_map.1 hp'
      exact List.cons_lt_cons_iff.2 (.inl hlt)

section
variable {root : SyntaxTree} {P Q : List Nat → SyntaxTree → Prop} {found found' : List (List Nat)}

theorem exists_inPreorder (root : SyntaxTree) (maxDepth : Nat)
    (P : List Nat → SyntaxTree → Prop) :
    ∃ found, root.InPreorder (fun p t => p.length ≤ maxDepth ∧ P p t) found := by
  classical
  refine ⟨(positions (maxDepth + 1) root).filter fun p => ∃ t, root.at? p = some t ∧ P p t,
    (pairwise_positions _ root).filter _, fun p => ?_⟩
  rw [List.mem_filter, mem_positions_iff, Nat.lt_succ_iff, decide_eq_true_eq]
  constructor
  · rintro ⟨⟨hlength, -⟩, t, ht, hP⟩
    exact ⟨t, ht, hlength, hP⟩
  · rintro ⟨t, ht, hlength, hP⟩
    exact ⟨⟨hlength, t, ht⟩, t, ht, hP⟩

/-- Of the positions with a property those that have another one too are not fewer only if all do. -/
theorem InPreorder.length_eq_iff (h : root.InPreorder P found)
    (h' : root.InPreorder (fun p t => P p t ∧ Q p t) found') : found'.length = found.length ↔
      ∀ p ∈ found, ∀ t, root.at? p = some t → Q p t := by
  classical
  have hfilter : found' = found.filter fun p => ∀ t, root.at? p = some t → Q p t := by
    refine h'.sorted.eq_of_mem_iff (h.sorted.filter _) fun p => ?_
    rw [List.mem_filter, h.mem_iff, h'.mem_iff, decide_eq_true_eq]
    constructor
    · rintro ⟨t, ht, hP, hQ⟩
      exact ⟨⟨t, ht, hP⟩, fun u hu => Option.some.inj (ht.symm.trans hu) ▸ hQ⟩
    · rintro ⟨⟨t, ht, hP⟩, hQ⟩
      exact ⟨t, ht, hP, hQ t ht⟩
  rw [hfilter, List.length_filter_eq_length_iff]
  simp

end

end SyntaxTree

/-- Of all calls and member accesses outside package and import declarations those in no header of a
named type are recorded, once each, and no others: all are if and only if no header has any. -/
theorem SourceUnit.header_occurrences_unrecorded (maxDepth : Nat) (path : Path)
    (root : SyntaxTree) : ∃ occurrences recorded : List (List Nat),
      root.InPreorder (fun p t => p.length ≤ maxDepth ∧ ¬ root.InPreamble p ∧
        ∃ kind name, t.Occurs kind name) occurrences ∧
      root.InPreorder (fun p t => (p.length ≤ maxDepth ∧ ¬ root.InPreamble p ∧
        ∃ kind name, t.Occurs kind name) ∧ ¬ root.InHeader p) recorded ∧
      List.Forall₂ (root.RecordedAs (root.openings (.ofTree root) maxDepth)) recorded
        ((ofTree maxDepth path root).references.filter (·.mention.kind ≠ .inherits)) ∧
      (((ofTree maxDepth path root).references.filter
        (·.mention.kind ≠ .inherits)).length = occurrences.length ↔
          ∀ p ∈ occurrences, ¬ root.InHeader p) := by
  obtain ⟨occurrences, hoccurrences⟩ := root.exists_inPreorder maxDepth fun p t =>
    ¬ root.InPreamble p ∧ ∃ kind name, t.Occurs kind name
  obtain ⟨recorded, hrecorded, hreferences⟩ := recordedAs_references maxDepth path root
  have hread : root.InPreorder (fun p t => (p.length ≤ maxDepth ∧ ¬ root.InPreamble p ∧
      ∃ kind name, t.Occurs kind name) ∧ ¬ root.InHeader p) recorded := by
    refine ⟨hrecorded.sorted, fun p => (hrecorded.mem_iff p).trans ?_⟩
    simp only [SyntaxTree.Read]
    tauto
  refine ⟨occurrences, recorded, hoccurrences, hread, hreferences, ?_⟩
  rw [← hreferences.length_eq, hoccurrences.length_eq_iff hread]
  constructor
  · intro h p hp
    obtain ⟨t, ht, -⟩ := (hoccurrences.mem_iff p).1 hp
    exact h p hp t ht
  · exact fun h p hp _ _ => h p hp

namespace SyntaxTree

def annotatedClass : SyntaxTree :=
  let argument : SyntaxTree := .node .fieldAccess .none (some "Config.MAX")
    [.node .identifier .object (some "Config") [], .node .identifier .field (some "MAX") []]
  let limit : SyntaxTree := .node .other .none (some "@Limit(Config.MAX)")
    [.node .identifier .name (some "Limit") [],
      .node .other .none (some "(Config.MAX)") [argument]]
  .node .other .none (some "@Limit(Config.MAX)\nclass Box {}\n")
    [.node .typeDeclaration .none (some "@Limit(Config.MAX)\nclass Box {}")
      [.node .other .none (some "@Limit(Config.MAX)") [limit],
        .node .identifier .name (some "Box") [], .node .other .body (some "{}") []]]

/-- The argument of a class's annotation is in the header of the class and gives no reference, however
deep the tree is read. -/
theorem annotation_argument_lost :
    (∃ t, annotatedClass.at? [0, 0, 0, 1, 0] = some t ∧ t.Occurs .fieldAccess "MAX") ∧
    annotatedClass.InHeader [0, 0, 0, 1, 0] ∧ ¬ annotatedClass.InPreamble [0, 0, 0, 1, 0] ∧
    ∀ maxDepth path, (SourceUnit.ofTree maxDepth path annotatedClass).references = [] := by
  have hheader : annotatedClass.InHeader [0, 0, 0, 1, 0] :=
    ⟨[0], 0, _, ⟨[0, 1, 0], rfl⟩, rfl, "Box", rfl, by decide⟩
  have hroot : ¬ annotatedClass.InPreamble [0] :=
    not_under_concat (p := []) rfl (not_under_nil _ _) nofun
  have hclass : ¬ annotatedClass.InPreamble [0, 0] := not_under_concat (p := [0]) rfl hroot nofun
  have hmodifiers : ¬ annotatedClass.InPreamble [0, 0, 0] :=
    not_under_concat (p := [0, 0]) rfl hclass nofun
  have hlimit : ¬ annotatedClass.InPreamble [0, 0, 0, 1] :=
    not_under_concat (p := [0, 0, 0]) rfl hmodifiers nofun
  have hpreamble : ¬ annotatedClass.InPreamble [0, 0, 0, 1, 0] :=
    not_under_concat (p := [0, 0, 0, 1]) rfl hlimit nofun
  refine ⟨⟨_, rfl, .field rfl rfl rfl rfl rfl⟩, hheader, hpreamble, fun maxDepth path => ?_⟩
  match maxDepth with
  | 0 => rfl
  | 1 => rfl
  | _ + 2 => rfl

end SyntaxTree

end PackageModularity

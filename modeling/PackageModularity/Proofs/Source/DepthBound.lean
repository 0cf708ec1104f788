import Mathlib.Data.List.Flatten
import PackageModularity.Proofs.Source.RecordedOccurrences
import PackageModularity.Proofs.Source.ScopeChains

/-!
What the bound on the depth takes from a file that is read. A smaller bound leaves nodes out and cuts
receivers short, but it adds nothing, and a bound that no node lies below changes nothing.
-/
namespace PackageModularity

def Mention.label (m : Mention) : EdgeKind × String := (m.kind, m.name)

namespace SyntaxTree

/-- A tree of so many levels at most, that of its root included. -/
def Within (levels : Nat) (t : SyntaxTree) : Prop := ∀ p u, t.at? p = some u → p.length < levels

theorem not_within_zero (t : SyntaxTree) : ¬ t.Within 0 :=
  fun h => Nat.not_lt_zero _ (h [] t rfl)

theorem within_succ_iff {levels : Nat} {t : SyntaxTree} :
    t.Within (levels + 1) ↔ ∀ u ∈ t.children, u.Within levels := by
  constructor
  · intro h u hu p w hw
    obtain ⟨i, hi⟩ := List.mem_iff_getElem?.1 hu
    exact Nat.lt_of_succ_lt_succ (h (i :: p) w (by rw [at?, hi]; exact hw))
  · rintro h (_ | ⟨i, p⟩) w hw
    · exact Nat.succ_pos levels
    · obtain ⟨u, hu, hw⟩ := Option.bind_eq_some_iff.1 hw
      exact Nat.succ_lt_succ (h u (List.mem_of_getElem? hu) p w hw)

instance decidableWithin : (levels : Nat) → (t : SyntaxTree) → Decidable (t.Within levels)
  | 0, t => isFalse t.not_within_zero
  | levels + 1, t =>
    have := decidableWithin levels
    decidable_of_iff (∀ u ∈ t.children, u.Within levels) within_succ_iff.symm

section
variable {t : SyntaxTree} {levels levels' : Nat}

theorem receiver_eq_of_within (h : t.Within levels) (hle : levels ≤ levels') :
    receiver levels t = receiver levels' t := by
  induction levels generalizing t levels' with
  | zero => exact absurd h t.not_within_zero
  | succ depth ih =>
    obtain ⟨depth', rfl⟩ := Nat.exists_eq_add_of_le' (Nat.le_of_add_left_le hle)
    have hchild : ∀ u ∈ t.children, receiver depth u = receiver depth' u :=
      fun u hu => ih (within_succ_iff.1 h u hu) (Nat.le_of_succ_le_succ hle)
    obtain ⟨kind, role, text, nodes⟩ := t
    have hobject : objectReceiver depth nodes = objectReceiver depth' nodes := by
      rw [objectReceiver_eq, objectReceiver_eq]
      exact Option.map_congr fun u hu => hchild u (List.mem_of_find?_eq_some hu)
    have hfirst : firstReceiver depth nodes = firstReceiver depth' nodes := by
      cases nodes with
      | nil => rfl
      | cons u nodes => exact hchild u List.mem_cons_self
    rw [receiver.eq_def, receiver.eq_def]
    dsimp only
    rw [hobject, hfirst]

theorem objectReceiver_eq_of_within (h : t.Within (levels + 1)) (hle : levels ≤ levels') :
    objectReceiver levels t.children = objectReceiver levels' t.children := by
  rw [objectReceiver_eq, objectReceiver_eq]
  exact Option.map_congr fun u hu =>
    receiver_eq_of_within (within_succ_iff.1 h u (List.mem_of_find?_eq_some hu)) hle

theorem mention?_eq_of_within (h : t.Within (levels + 1)) (hle : levels ≤ levels') :
    t.mention? levels = t.mention? levels' := by
  rw [mention?, mention?, objectReceiver_eq_of_within h hle]

theorem events_eq_of_within (c : FileContext) (enclosing : List String) (h : t.Within levels)
    (hle : levels ≤ levels') : t.events c enclosing levels = t.events c enclosing levels' := by
  induction levels generalizing t enclosing levels' with
  | zero => exact absurd h t.not_within_zero
  | succ depth ih =>
    obtain ⟨depth', rfl⟩ := Nat.exists_eq_add_of_le' (Nat.le_of_add_left_le hle)
    have hdepth : depth ≤ depth' := Nat.le_of_succ_le_succ hle
    have hstart : t.startEvents c enclosing depth = t.startEvents c enclosing depth' := by
      rw [startEvents, startEvents, mention?_eq_of_within h hdepth]
    have hchildren : t.enteredEvents c (t.innerTypes c enclosing) depth =
        t.enteredEvents c (t.innerTypes c enclosing) depth' := by
      refine List.flatMap_congr fun e he => ih _ ?_ hdepth
      exact within_succ_iff.1 h e.1 (List.mem_of_getElem? (mem_entered_iff.1 he).1)
    rw [events_succ, events_succ, hstart, hchildren]

theorem map_label_mention? (t : SyntaxTree) (levels levels' : Nat) :
    (t.mention? levels).map Mention.label = (t.mention? levels').map Mention.label := by
  rw [mention?, mention?, objectReceiver_eq, objectReceiver_eq]
  split
  · cases t.childText? .name <;> rfl
  · cases playing? .object t.children with
    | none => rfl
    | some object =>
      cases t.child? .field with
      | none => rfl
      | some member =>
        show Option.map _ (if _ then _ else _) = Option.map _ (if _ then _ else _)
        split
        · cases member.text <;> rfl
        · rfl
  · rfl

end

def labelsAt (root : SyntaxTree) (p : List Nat) : List (EdgeKind × String) :=
  match root.at? p with
  | none => []
  | some t =>
    match t.shape with
    | .preamble | .method => []
    | .namedType _ => t.supertypeNames.map fun s => (.inherits, s)
    | .plain => ((t.mention? 0).map Mention.label).toList

theorem map_label_referencesAt (root : SyntaxTree) (maxDepth : Nat) (opened : List Opening)
    (p : List Nat) :
    (root.referencesAt maxDepth opened p).map (·.mention.label) = root.labelsAt p := by
  rw [referencesAt, labelsAt]
  cases root.at? p with
  | none => rfl
  | some t =>
    dsimp only
    cases t.shape with
    | preamble => rfl
    | namedType name => exact List.map_map
    | method => rfl
    | plain =>
      dsimp only
      rw [map_label_mention? t 0 (maxDepth - p.length)]
      cases t.mention? (maxDepth - p.length) <;> rfl

end SyntaxTree

namespace Visit

/-- A larger bound visits nodes in between and leaves out none. -/
theorem below_sublist (c : FileContext) {depth depth' : Nat} (h : depth ≤ depth') (v : Visit) :
    (below c depth v).Sublist (below c depth' v) := by
  induction depth generalizing depth' v with
  | zero => exact List.nil_sublist _
  | succ depth ih =>
    obtain ⟨depth', rfl⟩ := Nat.exists_eq_add_of_le' (Nat.le_of_add_left_le h)
    exact (List.Sublist.flatMap_right _ fun e _ => ih (Nat.le_of_succ_le_succ h) _).cons_cons v

end Visit

namespace SourceUnit

theorem map_label_references (maxDepth : Nat) (path : Path) (root : SyntaxTree) :
    (ofTree maxDepth path root).references.map (·.mention.label) =
      (root.visits (.ofTree root) maxDepth).flatMap fun v => root.labelsAt v.position := by
  rw [references_eq_flatMap, List.map_flatMap]
  exact List.flatMap_congr fun v _ => root.map_label_referencesAt _ _ v.position

/-- A smaller bound on the depth leaves types and references out and keeps the others in their order.
A bound that no node lies below gives the same unit as every larger one. -/
theorem ofTree_cut {depth depth' : Nat} (h : depth ≤ depth') (path : Path) (root : SyntaxTree) :
    (ofTree depth path root).path = (ofTree depth' path root).path ∧
    (ofTree depth path root).context = (ofTree depth' path root).context ∧
    (ofTree depth path root).types.Sublist (ofTree depth' path root).types ∧
    ((ofTree depth path root).references.map (·.mention.label)).Sublist
      ((ofTree depth' path root).references.map (·.mention.label)) ∧
    ((∀ p t, root.at? p = some t → p.length ≤ depth) →
      ofTree depth path root = ofTree depth' path root) := by
  have hvisits : (root.visits (.ofTree root) depth).Sublist (root.visits (.ofTree root) depth') :=
    Visit.below_sublist _ (Nat.succ_le_succ h) _
  refine ⟨rfl, rfl, ?_, ?_, fun hwithin => ?_⟩
  · rw [types_ofTree, types_ofTree]
    exact hvisits.filterMap _
  · rw [map_label_references, map_label_references]
    exact hvisits.flatMap _
  · have hlevels : root.Within (depth + 1) := fun p t ht => Nat.lt_succ_of_le (hwithin p t ht)
    rw [ofTree, ofTree, SyntaxTree.events_eq_of_within _ _ hlevels (Nat.succ_le_succ h)]

/-- `class A { void run(B b) { b.next().go(); } }`, with eight levels below the root. -/
def chainedCall : SyntaxTree :=
  let parameter : SyntaxTree := .node .formalParameter .none (some "B b")
    [.node .typeIdentifier .type (some "B") [], .node .identifier .name (some "b") []]
  let next : SyntaxTree := .node .methodInvocation .object (some "b.next()")
    [.node .identifier .object (some "b") [], .node .identifier .name (some "next") []]
  let go : SyntaxTree := .node .methodInvocation .none (some "b.next().go()")
    [next, .node .identifier .name (some "go") []]
  let run : SyntaxTree := .node .methodDeclaration .none none
    [.node .voidType .type (some "void") [], .node .identifier .name (some "run") [],
      .node .other .parameters (some "(B b)") [parameter],
      .node .other .body none [.node .other .none (some "b.next().go();") [go]]]
  .node .other .none none
    [.node .typeDeclaration .none none
      [.node .identifier .name (some "A") [], .node .other .body none [run]]]

/-- Six levels leave the inner call out, and eight are as good as any greater number. -/
theorem ofTree_cut_chainedCall :
    6 ≤ 8 ∧ (ofTree 6 (.ofText "A.java") chainedCall).references =
      [⟨.call (some .unknown) "go", 3⟩] ∧
    ((ofTree 6 (.ofText "A.java") chainedCall).references.map (·.mention.label)).Sublist
      ((ofTree 8 (.ofText "A.java") chainedCall).references.map (·.mention.label)) ∧
    8 ≤ 512 ∧ (∀ p t, chainedCall.at? p = some t → p.length ≤ 8) ∧
    ofTree 8 (.ofText "A.java") chainedCall = ofTree 512 (.ofText "A.java") chainedCall := by
  have hcut : 6 ≤ 8 := by decide
  have hlarge : 8 ≤ 512 := by decide
  have hwithin : chainedCall.Within 9 := by decide
  have hdepth : ∀ p t, chainedCall.at? p = some t → p.length ≤ 8 :=
    fun p t ht => Nat.le_of_lt_succ (hwithin p t ht)
  obtain ⟨-, -, -, hlabels, -⟩ := ofTree_cut hcut (.ofText "A.java") chainedCall
  obtain ⟨-, -, -, -, hequal⟩ := ofTree_cut hlarge (.ofText "A.java") chainedCall
  exact ⟨hcut, rfl, hlabels, hlarge, hdepth, hequal hdepth⟩

end SourceUnit

end PackageModularity

import PackageModularity.Proofs.Source.NumberedVisits

/-!
The references of a file that is read. Every call and every access to a member that the reading comes
to is recorded once, in the scope of the nearest node around it that opens one, and every named type
adds the supertypes that it is written with.
-/
namespace PackageModularity

namespace SyntaxTree

/-- A call under a name, or a member that an object and an identifier name. -/
inductive Occurs : SyntaxTree → EdgeKind → String → Prop where
  | call {t : SyntaxTree} {name : String} (hkind : t.kind = .methodInvocation)
    (hname : t.childText? .name = some name) : Occurs t .calls name
  | field {t object member : SyntaxTree} {name : String} (hkind : t.kind = .fieldAccess)
    (hobject : t.child? .object = some object) (hmember : t.child? .field = some member)
    (hidentifier : member.kind = .identifier) (hname : member.text = some name) :
    Occurs t .fieldAccess name

theorem objectReceiver_eq (depth : Nat) (ts : List SyntaxTree) :
    objectReceiver depth ts = (playing? .object ts).map (receiver depth) := by
  induction ts with
  | nil => rfl
  | cons t ts ih =>
    rw [objectReceiver, playing?]
    by_cases h : t.role = .object
    · rw [if_pos h, List.find?_cons_of_pos (by simpa using h)]
      rfl
    · rw [if_neg h, List.find?_cons_of_neg (by simpa using h), ih, playing?]

section
variable {t : SyntaxTree} {depth : Nat}

theorem occurs_of_mention? {m : Mention} (h : t.mention? depth = some m) :
    t.Occurs m.kind m.name := by
  rw [mention?] at h
  split at h
  · rename_i hkind
    obtain ⟨name, hname, rfl⟩ := Option.map_eq_some_iff.1 h
    exact .call hkind hname
  · rename_i hkind
    rw [objectReceiver_eq] at h
    obtain ⟨receiver, hreceiver, h⟩ := Option.bind_eq_some_iff.1 h
    obtain ⟨object, hobject, rfl⟩ := Option.map_eq_some_iff.1 hreceiver
    obtain ⟨member, hmember, h⟩ := Option.bind_eq_some_iff.1 h
    split at h
    · rename_i hidentifier
      obtain ⟨name, hname, h⟩ := Option.bind_eq_some_iff.1 h
      cases h
      exact .field hkind hobject hmember hidentifier hname
    · cases h
  · cases h

theorem exists_mention?_of_occurs (depth : Nat) {kind : EdgeKind} {name : String}
    (h : t.Occurs kind name) : ∃ m, t.mention? depth = some m := by
  cases h with
  | call hkind hname =>
    exact ⟨.call (objectReceiver depth t.children) name, by simp [mention?, hkind, hname]⟩
  | @field object member _ hkind hobject hmember hidentifier hname =>
    have hreceiver : objectReceiver depth t.children = some (receiver depth object) := by
      rw [objectReceiver_eq]
      exact congrArg (Option.map (receiver depth)) hobject
    exact ⟨.field (receiver depth object) name,
      by simp [mention?, hkind, hreceiver, hmember, hidentifier, hname]⟩

theorem occurs_iff (depth : Nat) : (∃ kind name, t.Occurs kind name) ↔ ∃ m, t.mention? depth = some m :=
  ⟨fun ⟨_, _, h⟩ => exists_mention?_of_occurs depth h, fun ⟨_, h⟩ => ⟨_, _, occurs_of_mention? h⟩⟩

instance : DecidablePred fun t : SyntaxTree => ∃ kind name, t.Occurs kind name := fun t =>
  decidable_of_iff ((t.mention? 0).isSome = true) (Option.isSome_iff_exists.trans (occurs_iff 0).symm)

theorem shape_of_occurs {kind : EdgeKind} {name : String} (h : t.Occurs kind name) :
    t.shape = .plain := by
  cases h with
  | call hkind => rw [shape, hkind]
  | field hkind => rw [shape, hkind]

theorem kind_of_occurs {kind : EdgeKind} {name : String} (h : t.Occurs kind name) :
    kind ≠ .inherits := by
  cases h <;> simp

end

section
variable (root : SyntaxTree)

def referencesAt (maxDepth : Nat) (opened : List Opening) (p : List Nat) : List Reference :=
  match root.at? p with
  | none => []
  | some t =>
    match t.shape with
    | .preamble | .method => []
    | .namedType _ =>
      t.supertypeNames.map fun s => ⟨.supertype s, scopeNumber opened (some (.header p))⟩
    | .plain =>
      (t.mention? (maxDepth - p.length)).toList.map fun m =>
        ⟨m, scopeNumber opened (root.owner? p)⟩

/-- A reference is what occurs at a position, in the scope of the nearest node around it that opens
one for what is in it. -/
def RecordedAs (opened : List Opening) (p : List Nat) (r : Reference) : Prop :=
  r.scope = scopeNumber opened (root.owner? p) ∧
    ∃ t, root.at? p = some t ∧ t.Occurs r.mention.kind r.mention.name

end

section
variable {root t : SyntaxTree} {maxDepth : Nat} {opened : List Opening} {p : List Nat}

theorem referencesAt_of_occurs (ht : root.at? p = some t)
    (hoccurs : ∃ kind name, t.Occurs kind name) :
    ∃ r, (root.referencesAt maxDepth opened p).filter (·.mention.kind ≠ .inherits) = [r] ∧
      root.RecordedAs opened p r := by
  obtain ⟨kind, name, hname⟩ := hoccurs
  obtain ⟨m, hm⟩ := exists_mention?_of_occurs (maxDepth - p.length) hname
  have hkind : m.kind ≠ .inherits := kind_of_occurs (occurs_of_mention? hm)
  refine ⟨⟨m, scopeNumber opened (root.owner? p)⟩, ?_, rfl, t, ht, occurs_of_mention? hm⟩
  simp [referencesAt, ht, shape_of_occurs hname, hm, hkind]

theorem referencesAt_of_not_occurs (ht : root.at? p = some t)
    (hoccurs : ¬ ∃ kind name, t.Occurs kind name) :
    (root.referencesAt maxDepth opened p).filter (·.mention.kind ≠ .inherits) = [] := by
  have hmention : t.mention? (maxDepth - p.length) = none := by
    rw [occurs_iff (maxDepth - p.length)] at hoccurs
    exact Option.eq_none_iff_forall_ne_some.2 fun m hm => hoccurs ⟨m, hm⟩
  rw [List.filter_eq_nil_iff]
  intro r hr
  cases hshape : t.shape with
  | namedType name =>
    simp only [referencesAt, ht, hshape, List.mem_map] at hr
    obtain ⟨s, -, rfl⟩ := hr
    simp [Mention.kind]
  | _ => simp [referencesAt, ht, hshape, hmention] at hr

end

end SyntaxTree

namespace Visit
variable {c : FileContext} {root : SyntaxTree} {maxDepth : Nat} {opened : List Opening} {v : Visit}

theorem filterMap_reference?_numbered (hv : v.Faithful root) :
    (v.numbered c maxDepth opened).filterMap Event.reference? =
      root.referencesAt maxDepth opened v.position := by
  rw [numbered, SyntaxTree.referencesAt, hv.node, ← hv.owner]
  dsimp only
  cases v.node.shape with
  | preamble => rfl
  | namedType name =>
    simp [List.filterMap_cons, List.filterMap_map, Function.comp_def, Event.reference?]
  | method => rfl
  | plain =>
    simp [List.filterMap_map, Function.comp_def, Event.reference?, SyntaxTree.localEvents]

end Visit

namespace SyntaxTree

end SyntaxTree

namespace SourceUnit
variable (maxDepth : Nat) (path : Path) (root : SyntaxTree)

theorem references_eq_flatMap : (ofTree maxDepth path root).references =
    (root.visits (.ofTree root) maxDepth).flatMap fun v =>
      root.referencesAt maxDepth (root.openings (.ofTree root) maxDepth) v.position := by
  show (Event.numbered 1 [] _).filterMap Event.reference? = _
  rw [SyntaxTree.numbered_events, List.filterMap_flatMap]
  exact List.flatMap_congr fun v hv =>
    Visit.filterMap_reference?_numbered (SyntaxTree.faithful_of_visits hv)

theorem recordedAs_references : ∃ occurrences, root.InPreorder
    (fun p t => p.length ≤ maxDepth ∧ root.Read p ∧ ∃ kind name, t.Occurs kind name) occurrences ∧
      List.Forall₂ (root.RecordedAs (root.openings (.ofTree root) maxDepth)) occurrences
        ((ofTree maxDepth path root).references.filter (·.mention.kind ≠ .inherits)) := by
  refine ⟨_, root.inPreorder_visits (.ofTree root) maxDepth _, ?_⟩
  rw [references_eq_flatMap, List.filter_flatMap, List.forall₂_map_left_iff]
  refine forall₂_filter_flatMap ?_ ?_
  · exact fun v hv h =>
      SyntaxTree.referencesAt_of_occurs (SyntaxTree.faithful_of_visits hv).node h
  · exact fun v hv h =>
      SyntaxTree.referencesAt_of_not_occurs (SyntaxTree.faithful_of_visits hv).node h

end SourceUnit

end PackageModularity

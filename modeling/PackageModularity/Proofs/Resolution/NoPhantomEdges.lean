import Mathlib.Data.List.Forall2
import PackageModularity.Proofs.Resolution.DeclaredTypes
import PackageModularity.Proofs.Resolution.LastDeclaration
import PackageModularity.Resolution.UnitEdges

/-!
An edge stems from one reference of the unit and ends in a package of the registry; for a call or a
field it is the package of a type that has the method or field itself.
-/
namespace PackageModularity

theorem filterMap_eq_image {α β : Type} (f : α → Option β) (l : List α) :
    ∃ k, k.Sublist l ∧ List.Forall₂ (fun a b => f a = some b) k (l.filterMap f) := by
  induction l with
  | nil => exact ⟨[], List.Sublist.refl [], List.Forall₂.nil⟩
  | cons a l ih =>
    obtain ⟨k, hk, hf⟩ := ih
    cases ha : f a with
    | none => exact ⟨k, hk.cons a, by rwa [List.filterMap_cons_none ha]⟩
    | some b => exact ⟨a :: k, hk.cons_cons a, by
        rw [List.filterMap_cons_some ha]
        exact List.Forall₂.cons ha hf⟩

namespace TypeTable

theorem resolve_scope {t : TypeTable} {u : SourceUnit} {ref : Reference} {d : Declaration}
    (h : t.resolve u ref = some d) : ref.scope < u.scopes.length := by
  obtain ⟨scope, hs, -⟩ := Option.bind_eq_some_iff.1 h
  exact (List.getElem?_eq_some_iff.1 hs).1

theorem resolve_call {t : TypeTable} {u : SourceUnit} {ref : Reference} {d : Declaration}
    (h : t.resolve u ref = some d) (hk : ref.mention.kind = .calls) (hd : d.origin = .source) :
    ∃ s, t.Declares s ∧ s.package = d.package ∧ (s.decl.methods.get? ref.mention.name).isSome := by
  obtain ⟨scope, -, hs⟩ := Option.bind_eq_some_iff.1 h
  cases hm : ref.mention with
  | supertype name => simp [hm, Mention.kind] at hk
  | call receiver name =>
    rw [hm] at hs
    exact callTarget?_sound hs hd
  | field receiver name => simp [hm, Mention.kind] at hk

theorem resolve_field {t : TypeTable} {u : SourceUnit} {ref : Reference} {d : Declaration}
    (h : t.resolve u ref = some d) (hk : ref.mention.kind = .fieldAccess)
    (hd : d.origin = .source) :
    ∃ s, t.Declares s ∧ s.package = d.package ∧ (s.decl.fields.get? ref.mention.name).isSome := by
  obtain ⟨scope, -, hs⟩ := Option.bind_eq_some_iff.1 h
  cases hm : ref.mention with
  | supertype name => simp [hm, Mention.kind] at hk
  | call receiver name => simp [hm, Mention.kind] at hk
  | field receiver name =>
    rw [hm] at hs
    exact fieldTarget?_sound (fun _ hr => declares_of_receiverTypes hr) hs hd

end TypeTable

namespace Registry

/-- What the edge of a reference rests on. -/
structure Grounded (r : Registry) (policy : SourcePackage) (t : TypeTable) (u : SourceUnit)
    (ref : Reference) (e : Edge) : Prop where
  scope : ref.scope < u.scopes.length
  source : r.sourcePackage? policy u = some e.source
  target : r.contains e.target = true
  kind : e.kind = ref.mention.kind
  method : e.kind = .calls → ∃ s, t.get? s.qualifiedName = some s ∧ s.package = e.target ∧
    (s.decl.methods.get? ref.mention.name).isSome
  field : e.kind = .fieldAccess → ∃ s, t.get? s.qualifiedName = some s ∧ s.package = e.target ∧
    (s.decl.fields.get? ref.mention.name).isSome

theorem edge?_eq_some {r : Registry} {resolve : Resolver} {source : String} {u : SourceUnit}
    {ref : Reference} {e : Edge} (h : r.edge? resolve source u ref = some e) :
    ∃ d, resolve u ref = some d ∧ (ref.mention.kind = .inherits ∨ d.origin = .source) ∧
      r.contains d.package = true ∧ e = ⟨source, d.package, ref.mention.kind⟩ := by
  obtain ⟨d, hd, he⟩ := Option.bind_eq_some_iff.1 h
  by_cases hc : (ref.mention.kind = .inherits ∨ d.origin = .source) ∧ r.contains d.package
  · rw [if_pos hc] at he
    exact ⟨d, hd, hc.1, hc.2, (Option.some.inj he).symm⟩
  · rw [if_neg hc] at he
    simp at he

theorem grounded_of_edge? {r : Registry} {policy : SourcePackage} {us : List SourceUnit}
    {source : String} {u : SourceUnit} {ref : Reference} {e : Edge}
    (hs : r.sourcePackage? policy u = some source)
    (h : r.edge? (TypeTable.ofUnits us).resolve source u ref = some e) :
    r.Grounded policy (TypeTable.ofUnits us) u ref e := by
  obtain ⟨d, hd, horigin, hin, rfl⟩ := edge?_eq_some h
  refine ⟨TypeTable.resolve_scope hd, hs, hin, rfl, ?_, ?_⟩
  · intro (hk : ref.mention.kind = .calls)
    have hsource := horigin.resolve_left (by rw [hk]; decide)
    obtain ⟨s, hdecl, hp, hm⟩ := TypeTable.resolve_call hd hk hsource
    exact ⟨s, (TypeTable.keyed_ofUnits us).get? hdecl, hp, hm⟩
  · intro (hk : ref.mention.kind = .fieldAccess)
    have hsource := horigin.resolve_left (by rw [hk]; decide)
    obtain ⟨s, hdecl, hp, hf⟩ := TypeTable.resolve_field hd hk hsource
    exact ⟨s, (TypeTable.keyed_ofUnits us).get? hdecl, hp, hf⟩

/-- The edges of a unit are the image of a part of its references, in their order, and each is
grounded. A unit without a source package and a reference outside every scope give none. -/
theorem edgesOf_grounded (r : Registry) (policy : SourcePackage) (us : List SourceUnit)
    (u : SourceUnit) :
    (∃ refs, refs.Sublist u.references ∧
      List.Forall₂ (r.Grounded policy (TypeTable.ofUnits us) u) refs
        (r.edgesOf policy (TypeTable.ofUnits us).resolve u)) ∧
    (r.sourcePackage? policy u = none → r.edgesOf policy (TypeTable.ofUnits us).resolve u = []) ∧
    ∀ source ref, u.scopes.length ≤ ref.scope →
      r.edge? (TypeTable.ofUnits us).resolve source u ref = none := by
  refine ⟨?_, ?_, ?_⟩
  · cases hs : r.sourcePackage? policy u with
    | none => exact ⟨[], List.nil_sublist _, by rw [edgesOf, hs]; exact List.Forall₂.nil⟩
    | some source =>
      obtain ⟨refs, hsub, himage⟩ := filterMap_eq_image
        (r.edge? (TypeTable.ofUnits us).resolve source u) u.references
      refine ⟨refs, hsub, ?_⟩
      rw [edgesOf, hs]
      exact himage.imp fun ref e he => grounded_of_edge? hs he
  · intro hs
    rw [edgesOf, hs]
  · intro source ref hout
    cases he : r.edge? (TypeTable.ofUnits us).resolve source u ref with
    | none => rfl
    | some e =>
      obtain ⟨d, hd, -⟩ := edge?_eq_some he
      have hin := TypeTable.resolve_scope hd
      omega

end Registry

end PackageModularity

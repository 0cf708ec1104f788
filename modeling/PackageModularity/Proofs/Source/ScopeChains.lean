import PackageModularity.Proofs.Source.NumberedVisits

/-!
The scopes and types of a file that is read. The types around a scope or a type are always those of a
type listed before, with that type in front, so every chain of enclosing types leads through the listed
types out to the file.
-/
namespace PackageModularity

namespace Event

theorem scope_lt_of_mem_numbered {next : Nat} {within : List Nat} {es : List Event}
    {x : Nat × Event} (hnext : 0 < next) (hwithin : ∀ k ∈ within, k < next)
    (hx : x ∈ numbered next within es) :
    x.1 < next + ((numbered next within es).filterMap entered?).length := by
  induction es generalizing next within with
  | nil => cases hx
  | cons e es ih =>
    cases e with
    | enter enclosing =>
      have hopen : ∀ k ∈ next :: within, k < next + 1 :=
        List.forall_mem_cons.2 ⟨Nat.lt_succ_self next, fun k hk => Nat.lt_succ_of_lt (hwithin k hk)⟩
      show x.1 < next + ((numbered (next + 1) (next :: within) es).filterMap entered?).length.succ
      rcases List.mem_cons.1 hx with rfl | hx
      · exact Nat.lt_add_of_pos_right (Nat.succ_pos _)
      · have hlater := ih (Nat.add_pos_right next Nat.one_pos) hopen hx
        omega
    | leave => exact ih hnext (fun k hk => hwithin k (List.mem_of_mem_tail hk)) hx
    | _ =>
      show x.1 < next + ((numbered next within es).filterMap entered?).length
      rcases List.mem_cons.1 hx with rfl | hx
      · have hhead : within.headD 0 < next := by
          cases within with
          | nil => exact hnext
          | cons k within => exact hwithin k List.mem_cons_self
        exact Nat.lt_add_right _ hhead
      · exact ih hnext hwithin hx

theorem mem_filterMap_reference? {es : List (Nat × Event)} {r : Reference}
    (h : r ∈ es.filterMap reference?) : (r.scope, .mention r.mention) ∈ es := by
  obtain ⟨⟨scope, e⟩, he, hr⟩ := List.mem_filterMap.1 h
  cases e with
  | mention m =>
    cases hr
    exact he
  | _ => cases hr

end Event

theorem SourceUnit.scope_lt_of_mem_references {path : Path} {c : FileContext} {es : List Event}
    {r : Reference} (hr : r ∈ (SourceUnit.ofEvents path c es).references) :
    r.scope < (SourceUnit.ofEvents path c es).scopes.length := by
  have hlt := Event.scope_lt_of_mem_numbered (Nat.succ_pos 0) (by simp)
    (Event.mem_filterMap_reference? hr)
  have hlength : (SourceUnit.ofEvents path c es).scopes.length =
      1 + ((Event.numbered 1 [] es).filterMap Event.entered?).length := by
    rw [ofEvents, Event.scopes, List.length_cons, List.length_map, Nat.add_comm]
  rw [hlength]
  exact hlt

namespace Visit

def type? (c : FileContext) (v : Visit) : Option TypeDecl :=
  match v.node.shape with
  | .namedType name =>
    some (v.node.declaration name (SyntaxTree.qualified c v.enclosing name) v.enclosing)
  | .preamble | .method | .plain => none

section
variable {c : FileContext} {maxDepth depth : Nat} {opened : List Opening} {v : Visit}
  {listed listed' : List TypeDecl}

theorem type?_of_namedType {name : String} (h : v.node.shape = .namedType name) : v.type? c =
    some (v.node.declaration name (SyntaxTree.qualified c v.enclosing name) v.enclosing) := by
  rw [type?, h]

theorem shape_of_type? {d : TypeDecl} (h : v.type? c = some d) : ∃ name,
    v.node.shape = .namedType name ∧
      d = v.node.declaration name (SyntaxTree.qualified c v.enclosing name) v.enclosing := by
  rw [type?] at h
  cases hshape : v.node.shape with
  | namedType name =>
    rw [hshape] at h
    exact ⟨name, rfl, (Option.some.inj h).symm⟩
  | _ =>
    rw [hshape] at h
    cases h

theorem filterMap_define?_numbered :
    (v.numbered c maxDepth opened).filterMap Event.define? = (v.type? c).toList := by
  rw [numbered, type?]
  cases v.node.shape with
  | preamble => rfl
  | namedType name => simp [List.filterMap_cons, List.filterMap_map, Function.comp_def, Event.define?]
  | method => rfl
  | plain =>
    simp [List.filterMap_map, Function.comp_def, Event.define?, SyntaxTree.localEvents]

theorem enclosing_of_entering {x : Opening × List String} (h : x ∈ v.entering c) :
    x.2 = v.enclosing ∨ ∃ d, v.type? c = some d ∧ x.2 = d.qualifiedName :: d.enclosing := by
  cases hshape : v.node.shape with
  | namedType name =>
    simp only [entering, hshape, List.mem_cons, List.not_mem_nil, or_false] at h
    rcases h with rfl | rfl
    · exact .inl rfl
    · exact .inr ⟨_, type?_of_namedType hshape, rfl⟩
  | method =>
    simp only [entering, hshape, List.mem_singleton] at h
    exact .inl (congrArg Prod.snd h)
  | _ => simp [entering, hshape] at h

/-- Visits after some types are listed, each in a place that is known by then. -/
def Placed (c : FileContext) : List TypeDecl → List Visit → Prop
  | _, [] => True
  | listed, v :: vs => StandsIn listed v.enclosing ∧ Placed c (listed ++ (v.type? c).toList) vs

theorem Placed.mono {vs : List Visit} (h : Placed c listed vs) (hsub : listed ⊆ listed') :
    Placed c listed' vs := by
  induction vs generalizing listed listed' with
  | nil => trivial
  | cons v vs ih =>
    exact ⟨h.1.mono hsub, ih h.2 (List.append_subset.2
      ⟨List.subset_append_of_subset_left _ hsub, List.subset_append_right _ _⟩)⟩

theorem Placed.append {vs ws : List Visit} (hv : Placed c listed vs) (hw : Placed c listed ws) :
    Placed c listed (vs ++ ws) := by
  induction vs generalizing listed with
  | nil => exact hw
  | cons v vs ih => exact ⟨hv.1, ih hv.2 (hw.mono (List.subset_append_left _ _))⟩

theorem Placed.flatMap {α : Type} {f : α → List Visit} {l : List α}
    (h : ∀ a ∈ l, Placed c listed (f a)) : Placed c listed (l.flatMap f) := by
  induction l with
  | nil => trivial
  | cons a l ih =>
    obtain ⟨ha, hl⟩ := List.forall_mem_cons.1 h
    rw [List.flatMap_cons]
    exact ha.append (ih hl)

theorem standsIn_innerTypes (h : StandsIn listed v.enclosing) :
    StandsIn (listed ++ (v.type? c).toList) (v.node.innerTypes c v.enclosing) := by
  rw [SyntaxTree.innerTypes]
  cases hshape : v.node.shape with
  | namedType name =>
    rw [type?_of_namedType hshape]
    exact .inr ⟨_, List.mem_append_right _ List.mem_cons_self, rfl⟩
  | _ => exact h.mono (List.subset_append_left _ _)

theorem placed_below (h : StandsIn listed v.enclosing) : Placed c listed (below c depth v) := by
  induction depth generalizing v listed with
  | zero => trivial
  | succ depth ih => exact ⟨h, Placed.flatMap fun e _ => ih (standsIn_innerTypes h)⟩

theorem Placed.standsIn {before after : List Visit}
    (h : Placed c listed (before ++ v :: after)) :
    StandsIn (listed ++ before.filterMap (type? c)) v.enclosing := by
  induction before generalizing listed with
  | nil =>
    rw [List.filterMap_nil, List.append_nil]
    exact h.1
  | cons w before ih =>
    rw [List.filterMap_eq_flatMap_toList, List.flatMap_cons, ← List.append_assoc,
      ← List.filterMap_eq_flatMap_toList]
    exact ih h.2

end

end Visit

namespace SourceUnit
variable (maxDepth : Nat) (path : Path) (root : SyntaxTree)

theorem types_ofTree : (ofTree maxDepth path root).types =
    (root.visits (.ofTree root) maxDepth).filterMap (Visit.type? (.ofTree root)) := by
  show (Event.numbered 1 [] _).filterMap Event.define? = _
  rw [SyntaxTree.numbered_events, List.filterMap_flatMap]
  simp only [Visit.filterMap_define?_numbered, ← List.filterMap_eq_flatMap_toList]

theorem placed_visits (c : FileContext) : Visit.Placed c [] (root.visits c maxDepth) :=
  Visit.placed_below (.inl rfl)

theorem standsIn_of_visits {v : Visit} (hv : v ∈ root.visits (.ofTree root) maxDepth) :
    StandsIn (ofTree maxDepth path root).types v.enclosing := by
  obtain ⟨before, after, hsplit⟩ := List.append_of_mem hv
  have hplaced := placed_visits maxDepth root (.ofTree root)
  rw [hsplit] at hplaced
  refine hplaced.standsIn.mono ?_
  rw [List.nil_append, types_ofTree, hsplit, List.filterMap_append]
  exact List.subset_append_left _ _

theorem standsIn_of_scopes {s : Scope} (hs : s ∈ (ofTree maxDepth path root).scopes) :
    StandsIn (ofTree maxDepth path root).types s.enclosing := by
  rcases List.mem_cons.1 hs with rfl | hs
  · exact .inl rfl
  rw [SyntaxTree.entered_events, List.map_map] at hs
  obtain ⟨x, hx, rfl⟩ := List.mem_map.1 hs
  obtain ⟨v, hv, hx⟩ := List.mem_flatMap.1 hx
  rcases Visit.enclosing_of_entering hx with he | ⟨d, hd, he⟩
  · show StandsIn _ x.2
    rw [he]
    exact standsIn_of_visits maxDepth path root hv
  · refine .inr ⟨d, ?_, he⟩
    rw [types_ofTree]
    exact List.mem_filterMap.2 ⟨v, hv, hd⟩

theorem standsIn_of_types {before after : List TypeDecl} {d : TypeDecl}
    (h : (ofTree maxDepth path root).types = before ++ d :: after) :
    StandsIn before d.enclosing := by
  rw [types_ofTree] at h
  obtain ⟨vs, ws, hvisits, rfl, hd⟩ := List.filterMap_eq_append_iff.1 h
  obtain ⟨us, v, ws, rfl, hnone, hd, -⟩ := List.filterMap_eq_cons_iff.1 hd
  have hplaced := placed_visits maxDepth root (.ofTree root)
  rw [hvisits, ← List.append_assoc] at hplaced
  have hstands := hplaced.standsIn
  rw [List.nil_append, List.filterMap_append, List.filterMap_eq_nil_iff.2 hnone,
    List.append_nil] at hstands
  obtain ⟨name, -, rfl⟩ := Visit.shape_of_type? hd
  exact hstands

end SourceUnit

theorem names_listed {types : List TypeDecl}
    (h : ∀ before d after, types = before ++ d :: after → StandsIn before d.enclosing)
    {before after : List TypeDecl} {d : TypeDecl} (hd : types = before ++ d :: after) :
    ∀ e ∈ d.enclosing, ∃ outer ∈ before, outer.qualifiedName = e := by
  induction hn : before.length using Nat.strongRecOn generalizing before d after with
  | ind n ih =>
    intro e he
    rcases h before d after hd with hnil | ⟨outer, houter, hchain⟩
    · rw [hnil] at he
      cases he
    · rw [hchain] at he
      obtain ⟨front, back, rfl⟩ := List.append_of_mem houter
      rcases List.mem_cons.1 he with rfl | he
      · exact ⟨outer, houter, rfl⟩
      · rw [List.append_assoc] at hd
        obtain ⟨o, ho, hname⟩ := ih front.length (by simp [← hn]) hd rfl e he
        exact ⟨o, List.mem_append_left _ ho, hname⟩

/-- The qualified name of a type in a file of this package, after what is directly around it. -/
inductive QualifiedAs (package : Option String) (name : String) : List String → String → Prop where
  | member {outer : String} {rest : List String} :
    QualifiedAs package name (outer :: rest) (outer ++ "." ++ name)
  | packaged {p : String} (hpackage : package = some p) (hp : p ≠ "") :
    QualifiedAs package name [] (p ++ "." ++ name)
  | unpackaged (hpackage : package = none ∨ package = some "") :
    QualifiedAs package name [] name

theorem qualifiedAs_qualified (c : FileContext) (enclosing : List String) (name : String) :
    QualifiedAs c.package name enclosing (SyntaxTree.qualified c enclosing name) := by
  cases enclosing with
  | cons outer rest => exact .member
  | nil =>
    show QualifiedAs c.package name [] (c.qualify name)
    rw [FileContext.qualify, FileContext.packageName]
    cases hpackage : c.package with
    | none => exact .unpackaged (.inl rfl)
    | some p =>
      by_cases hp : p = ""
      · rw [Option.getD_some, if_pos hp]
        exact .unpackaged (.inr (congrArg some hp))
      · rw [Option.getD_some, if_neg hp]
        exact .packaged rfl hp

/-- A type is the declaration at a position, under its name there. -/
def TypeDecl.DeclaredAt (root : SyntaxTree) (package : Option String) (p : List Nat)
    (d : TypeDecl) : Prop :=
  ∃ t name, root.at? p = some t ∧ t.shape = .namedType name ∧
    QualifiedAs package name d.enclosing d.qualifiedName ∧
    d = t.declaration name d.qualifiedName d.enclosing

instance (s : Shape) : Decidable (∃ name, s = .namedType name) :=
  match s with
  | .namedType name => isTrue ⟨name, rfl⟩
  | .preamble | .method | .plain => isFalse fun ⟨_, h⟩ => nomatch h

/-- A unit whose scopes and types fit together, and whose types are those that a tree declares. -/
structure SourceUnit.WellFormed (maxDepth : Nat) (root : SyntaxTree) (u : SourceUnit) : Prop where
  reference_scope : ∀ r ∈ u.references, r.scope < u.scopes.length
  file_scope : (u.scopes.map Scope.enclosing)[0]? = some []
  chains : ∀ chain ∈ u.scopes.map Scope.enclosing ++
    u.types.map (fun d => d.qualifiedName :: d.enclosing), ∀ e rest, chain = e :: rest →
      ∃ d ∈ u.types, d.qualifiedName = e ∧ d.enclosing = rest
  declared : ∃ found, root.InPreorder
    (fun p t => p.length ≤ maxDepth ∧ root.Read p ∧ ∃ name, t.shape = .namedType name) found ∧
      List.Forall₂ (TypeDecl.DeclaredAt root u.context.package) found u.types
  earlier : ∀ before d after, u.types = before ++ d :: after → ∀ e ∈ d.enclosing,
    ∃ outer ∈ before, outer.qualifiedName = e

theorem SourceUnit.ofTree_wellFormed (maxDepth : Nat) (path : Path) (root : SyntaxTree) :
    (SourceUnit.ofTree maxDepth path root).WellFormed maxDepth root where
  reference_scope _ hr := scope_lt_of_mem_references hr
  file_scope := rfl
  chains chain hchain e rest he := by
    have hstands : StandsIn (ofTree maxDepth path root).types chain := by
      rcases List.mem_append.1 hchain with h | h
      · obtain ⟨s, hs, rfl⟩ := List.mem_map.1 h
        exact standsIn_of_scopes maxDepth path root hs
      · obtain ⟨d, hd, rfl⟩ := List.mem_map.1 h
        exact .inr ⟨d, hd, rfl⟩
    rcases hstands with hnil | ⟨d, hd, hcons⟩
    · rw [he] at hnil
      cases hnil
    · obtain ⟨rfl, rfl⟩ := List.cons.inj (he.symm.trans hcons)
      exact ⟨d, hd, rfl, rfl⟩
  declared := by
    refine ⟨_, root.inPreorder_visits (.ofTree root) maxDepth _, ?_⟩
    rw [types_ofTree, List.filterMap_eq_flatMap_toList, List.forall₂_map_left_iff]
    refine forall₂_filter_flatMap ?_ ?_
    · rintro v hv ⟨name, hshape⟩
      rw [Visit.type?_of_namedType hshape]
      exact ⟨_, rfl, v.node, name, (SyntaxTree.faithful_of_visits hv).node, hshape,
        qualifiedAs_qualified _ _ _, rfl⟩
    · intro v _ hnamed
      rw [Option.toList_eq_nil_iff, Option.eq_none_iff_forall_ne_some]
      intro d hd
      obtain ⟨name, hshape, -⟩ := Visit.shape_of_type? hd
      exact hnamed ⟨name, hshape⟩
  earlier before d after h := names_listed
    (fun _ _ _ hsplit => standsIn_of_types maxDepth path root hsplit) h

end PackageModularity

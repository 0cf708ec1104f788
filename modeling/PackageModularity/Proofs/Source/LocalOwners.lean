import PackageModularity.Proofs.DictEntries
import PackageModularity.Proofs.Source.RecordedOccurrences

/-!
The locals of a file that is read. A node belongs to the nearest one around it that holds locals, which
is a method or the body of a named type, and the locals of that one's scope are what the nodes that
belong to it declare.
-/
namespace PackageModularity

namespace SyntaxTree

def isDeclaring (t : SyntaxTree) : Bool :=
  match t.kind with
  | .formalParameter | .localVariableDeclaration | .enhancedFor | .resource | .catchParameter => true
  | _ => false

def isMethod (t : SyntaxTree) : Bool :=
  match t.shape with
  | .method => true
  | _ => false

def hasBody (t : SyntaxTree) (i : Nat) : Bool :=
  match t.shape with
  | .namedType _ => t.bodyNumber? = some i
  | _ => false

section
variable (root : SyntaxTree)

def isMethodAt (p : List Nat) : Bool := (root.at? p).any isMethod

def isBodyAt (p : List Nat) : Bool :=
  p.getLast?.any fun i => (root.at? p.dropLast).any fun t => t.hasBody i

def holdsLocals (p : List Nat) : Bool := root.isMethodAt p || root.isBodyAt p

/-- The nearest node around a position that holds locals, else the root. The node at the position counts
too, since what a body declares by itself is in its own scope. -/
def localOwner (p : List Nat) : List Nat := (p.inits.filter root.holdsLocals).getLast?.getD []

/-- The scope that the locals of an owner are in, unless it is that of the file. -/
def ownerScope? (owner : List Nat) : Option Opening :=
  if root.isMethodAt owner then some (.method owner)
  else if root.isBodyAt owner then some (.body owner.dropLast)
  else none

end

section
variable {root t : SyntaxTree} {p q : List Nat} {i : Nat}

theorem locals_eq (t : SyntaxTree) : t.locals =
    if t.isDeclaring then (t.localType?.map fun type => t.localNames.map (·, type)).getD []
    else [] := by
  rw [locals, isDeclaring]
  cases t.kind <;> cases t.localType? <;> rfl

theorem mem_locals_iff {name type : String} : (name, type) ∈ t.locals ↔
    t.isDeclaring = true ∧ t.localType? = some type ∧ name ∈ t.localNames := by
  rw [locals_eq]
  cases t.isDeclaring <;> cases t.localType? <;> simp [and_comm, eq_comm]

theorem shape_of_isDeclaring (h : t.isDeclaring = true) : t.shape = .plain := by
  rw [isDeclaring] at h
  rw [shape]
  split at h <;> simp_all

theorem shape_of_isMethod (h : t.isMethod = true) : t.shape = .method := by
  rw [isMethod] at h
  split at h
  · assumption
  · cases h

theorem hasBody_iff : t.hasBody i = true ↔
    ∃ name, t.shape = .namedType name ∧ t.bodyNumber? = some i := by
  rw [hasBody]
  cases t.shape <;> simp

theorem isBodyAt_concat : root.isBodyAt (p ++ [i]) = (root.at? p).any fun t => t.hasBody i := by
  rw [isBodyAt, List.getLast?_concat, List.dropLast_concat]
  rfl

theorem holdsLocals_of_localOwner (root : SyntaxTree) (p : List Nat) :
    root.holdsLocals (root.localOwner p) = true ∨ root.localOwner p = [] := by
  rw [localOwner]
  cases h : (p.inits.filter root.holdsLocals).getLast? with
  | none => exact .inr rfl
  | some o => exact .inl (List.mem_filter.1 (List.mem_of_getLast? h)).2

theorem localOwner_concat (root : SyntaxTree) (p : List Nat) (i : Nat) :
    root.localOwner (p ++ [i]) =
      if root.holdsLocals (p ++ [i]) then p ++ [i] else root.localOwner p := by
  rw [localOwner, inits_concat, List.filter_append, List.getLast?_append, List.filter_singleton]
  cases root.holdsLocals (p ++ [i]) <;> rfl

theorem isMethodAt_of_at? (ht : root.at? p = some t) : root.isMethodAt p = t.isMethod := by
  rw [isMethodAt, ht]
  rfl

theorem localOwner_around (root : SyntaxTree) (p : List Nat) : root.localOwner p <+: p := by
  rw [localOwner]
  cases h : (p.inits.filter root.holdsLocals).getLast? with
  | none => exact List.nil_prefix
  | some o => exact (List.mem_inits _ _).1 (List.mem_filter.1 (List.mem_of_getLast? h)).1

theorem around_localOwner (hq : root.holdsLocals q = true) (h : q <+: p) :
    q <+: root.localOwner p := by
  induction p using List.reverseRecOn with
  | nil =>
    rw [List.prefix_nil.1 h]
    exact List.nil_prefix
  | append_singleton p i ih =>
    rw [localOwner_concat]
    cases hholds : root.holdsLocals (p ++ [i]) with
    | true => exact h
    | false =>
      refine ih ((List.prefix_concat_iff.1 h).resolve_left ?_)
      rintro rfl
      rw [hq] at hholds
      cases hholds

theorem holdsLocals_of_isMethodAt (h : root.isMethodAt p = true) : root.holdsLocals p = true := by
  rw [holdsLocals, h, Bool.true_or]

theorem localOwner_eq_of_nearest (hq : root.holdsLocals q = true) (hqp : q <+: p)
    (hnearest : ∀ n, q <+: n → n <+: p → root.holdsLocals n = true → n = q) :
    root.localOwner p = q := by
  have hinside : q <+: root.localOwner p := around_localOwner hq hqp
  rcases root.holdsLocals_of_localOwner p with h | h
  · exact hnearest _ hinside (root.localOwner_around p) h
  · rw [h] at hinside ⊢
    exact (List.prefix_nil.1 hinside).symm

theorem localOwner_ne_of_between {n : List Nat} (hn : root.holdsLocals n = true) (hqn : q <+: n)
    (hne : n ≠ q) (hnp : n <+: p) : root.localOwner p ≠ q := by
  intro h
  have hnq : n <+: q := h ▸ around_localOwner hn hnp
  exact hne (hnq.eq_of_length_le hqn.length_le)

theorem ownerScope?_localOwner (ht : root.at? p = some t) (hread : root.Read p) :
    root.ownerScope? (root.localOwner p) =
      if t.isMethod then some (.method p) else root.owner? p := by
  induction p using List.reverseRecOn generalizing t with
  | nil =>
    rw [List.prefix_nil.1 (root.localOwner_around []), ownerScope?, isMethodAt_of_at? ht]
    rfl
  | append_singleton p i ih =>
    obtain ⟨u, hu, hchild⟩ := Option.bind_eq_some_iff.1 ((at?_concat root p i).symm.trans ht)
    obtain ⟨hread, hinto⟩ := (read_concat hu).1 hread
    have hbody : root.isBodyAt (p ++ [i]) = u.hasBody i := by
      rw [isBodyAt_concat, hu]
      rfl
    rw [localOwner_concat, holdsLocals, isMethodAt_of_at? ht, hbody, owner?_concat hu]
    cases hmethod : t.isMethod with
    | true => simp [ownerScope?, isMethodAt_of_at? ht, hmethod]
    | false =>
      cases hhas : u.hasBody i with
      | true =>
        obtain ⟨name, hshape, -⟩ := hasBody_iff.1 hhas
        simp [ownerScope?, isMethodAt_of_at? ht, hmethod, hbody, hhas, opening?, hshape]
      | false =>
        have hopening : u.opening? p = if u.isMethod then some (.method p) else none := by
          rw [opening?, isMethod]
          cases hshape : u.shape with
          | namedType name =>
            have hnumber := (goesInto_iff.1 hinto).2 name hshape
            rw [hasBody_iff.2 ⟨name, hshape, hnumber⟩] at hhas
            cases hhas
          | _ => rfl
        simp only [Bool.or_self, Bool.false_eq_true, if_false, ih hu hread, hopening]
        cases u.isMethod <;> rfl

theorem ownerScope?_cases {o : List Nat} {s : Opening} (h : root.ownerScope? o = some s) :
    s = .method o ∨ ∃ q i u name, o = q ++ [i] ∧ s = .body q ∧ root.at? q = some u ∧
      u.shape = .namedType name ∧ u.bodyNumber? = some i := by
  rw [ownerScope?] at h
  split at h
  · exact .inl (Option.some.inj h).symm
  · split at h
    · rename_i hbody
      cases o using List.reverseRecOn with
      | nil => cases hbody
      | append_singleton q i =>
        rw [isBodyAt_concat, Option.any_eq_true] at hbody
        obtain ⟨u, hu, hhas⟩ := hbody
        obtain ⟨name, hshape, hnumber⟩ := hasBody_iff.1 hhas
        rw [List.dropLast_concat] at h
        exact .inr ⟨q, i, u, name, rfl, (Option.some.inj h).symm, hu, hshape, hnumber⟩
    · cases h

theorem ownerScope?_eq_none {o : List Nat} (h : root.ownerScope? o = none) :
    root.holdsLocals o = false := by
  rw [ownerScope?] at h
  rw [holdsLocals]
  cases hmethod : root.isMethodAt o with
  | true => simp [hmethod] at h
  | false =>
    cases hbody : root.isBodyAt o with
    | true => simp [hmethod, hbody] at h
    | false => rfl

theorem localOwner_eq_of_ownerScope?_eq
    (h : root.ownerScope? (root.localOwner p) = root.ownerScope? (root.localOwner q)) :
    root.localOwner p = root.localOwner q := by
  cases hp : root.ownerScope? (root.localOwner p) with
  | none =>
    have hroot : ∀ r, root.ownerScope? (root.localOwner r) = none → root.localOwner r = [] := by
      intro r hr
      refine (root.holdsLocals_of_localOwner r).resolve_left fun hholds => ?_
      rw [ownerScope?_eq_none hr] at hholds
      cases hholds
    rw [hroot p hp, hroot q (h.symm.trans hp)]
  | some s =>
    rcases ownerScope?_cases hp with rfl | ⟨_, i, u, _, ho, rfl, hu, _, hnumber⟩
    · rcases ownerScope?_cases (h.symm.trans hp) with heq | ⟨_, _, _, _, _, heq, _⟩
      · exact Opening.method.inj heq
      · cases heq
    · rcases ownerScope?_cases (h.symm.trans hp) with heq | ⟨_, j, w, _, ho', heq, hw, _, hnumber'⟩
      · cases heq
      · obtain rfl := Opening.body.inj heq
        obtain rfl := Option.some.inj (hu.symm.trans hw)
        obtain rfl := Option.some.inj (hnumber.symm.trans hnumber')
        rw [ho, ho']

end

section
variable (root : SyntaxTree) (maxDepth : Nat)

def Reaches (p : List Nat) (t : SyntaxTree) : Prop :=
  root.at? p = some t ∧ p.length ≤ maxDepth ∧ root.Read p

/-- The node at a position, which the reading comes to, belongs to an owner and declares a name with
this written type. -/
def DeclaresLocal (owner p : List Nat) (name type : String) : Prop :=
  ∃ t, root.Reaches maxDepth p t ∧ root.localOwner p = owner ∧
    t.isDeclaring = true ∧ t.localType? = some type ∧ name ∈ t.localNames

/-- The last node in preorder that belongs to an owner and declares a name does it with this type. -/
def LastLocal (owner : List Nat) (name type : String) : Prop :=
  ∃ p, root.DeclaresLocal maxDepth owner p name type ∧
    ∀ q type', root.DeclaresLocal maxDepth owner q name type' → q ≤ p

def localScope (owner : List Nat) : Nat :=
  scopeNumber (root.openings (.ofTree root) maxDepth) (root.ownerScope? owner)

/-- The references that the node at a position adds, if the reading comes to it. -/
def referencesOf (p : List Nat) : List Reference :=
  root.referencesAt maxDepth (root.openings (.ofTree root) maxDepth) p

end

section
variable {root t : SyntaxTree} {maxDepth : Nat} {c : FileContext} {p : List Nat}

theorem reaches_of_visits {v : Visit} (hv : v ∈ root.visits c maxDepth) :
    root.Reaches maxDepth v.position v.node := by
  obtain ⟨hlength, hread, -⟩ := mem_visits_iff.1 ⟨v, hv, rfl⟩
  exact ⟨(faithful_of_visits hv).node, hlength, hread⟩

theorem Reaches.exists_visit (h : root.Reaches maxDepth p t) (c : FileContext) :
    ∃ v ∈ root.visits c maxDepth, v.position = p ∧ v.node = t := by
  obtain ⟨ht, hlength, hread⟩ := h
  obtain ⟨v, hv, rfl⟩ := (mem_visits_iff (c := c)).2 ⟨hlength, hread, t, ht⟩
  exact ⟨v, hv, rfl, Option.some.inj ((faithful_of_visits hv).node.symm.trans ht)⟩

end

end SyntaxTree

namespace Visit
variable {c : FileContext} {maxDepth depth : Nat} {opened : List Opening} {v w : Visit}

theorem filterMap_localIn?_numbered (scope : Nat) :
    (v.numbered c maxDepth opened).filterMap (Event.localIn? scope) =
      if scopeNumber opened v.owner = scope then v.node.locals else [] := by
  have hlocals : v.node.shape ≠ .plain → v.node.locals = [] := by
    intro hshape
    have hnot : ¬ v.node.isDeclaring = true :=
      fun h => hshape (SyntaxTree.shape_of_isDeclaring h)
    rw [SyntaxTree.locals_eq, if_neg hnot]
  rw [numbered]
  cases hshape : v.node.shape with
  | plain =>
    by_cases h : scopeNumber opened v.owner = scope <;>
      simp [SyntaxTree.localEvents, List.filterMap_map, Function.comp_def, Event.localIn?, h]
  | preamble => simp [hlocals, hshape]
  | namedType name =>
    simp [hlocals, hshape, List.filterMap_cons, List.filterMap_map, Function.comp_def,
      Event.localIn?]
  | method => simp [hlocals, hshape, Event.localIn?]

theorem mem_openings_of_opening? {o : Opening} (h : v.node.opening? v.position = some o) :
    o ∈ v.openings := by
  rw [SyntaxTree.opening?] at h
  rw [openings, SyntaxTree.opens]
  cases hshape : v.node.shape <;> simp_all

theorem owner_of_below (hw : w ∈ below c depth v) :
    w.owner = v.owner ∨ ∃ o ∈ (below c depth v).flatMap openings, w.owner = some o := by
  induction depth generalizing v with
  | zero => cases hw
  | succ depth ih =>
    rcases List.mem_cons.1 hw with rfl | hw
    · exact .inl rfl
    · obtain ⟨e, he, hw⟩ := List.mem_flatMap.1 hw
      rw [flatMap_below_succ]
      rcases ih hw with howner | ⟨o, ho, howner⟩
      · rw [show (v.child c e).owner = (v.node.opening? v.position).or v.owner from rfl] at howner
        cases hopening : v.node.opening? v.position with
        | none => exact .inl (by rw [howner, hopening, Option.none_or])
        | some o =>
          refine .inr ⟨o, List.mem_append_left _ (mem_openings_of_opening? hopening), ?_⟩
          rw [howner, hopening, Option.some_or]
      · exact .inr ⟨o, List.mem_append_right _ (List.mem_flatMap.2 ⟨e, he, ho⟩), howner⟩

end Visit

namespace SyntaxTree
variable {root t : SyntaxTree} {maxDepth : Nat} {c : FileContext} {p : List Nat}

theorem owner?_ne_header (root : SyntaxTree) (p q : List Nat) :
    root.owner? p ≠ some (.header q) := by
  intro h
  obtain ⟨r, -, hr⟩ := List.mem_filterMap.1 (List.mem_of_getLast? h)
  obtain ⟨t, -, hopening⟩ := Option.bind_eq_some_iff.1 hr
  rw [opening?] at hopening
  cases hshape : t.shape <;> simp [hshape] at hopening

theorem owner_mem_openings {v : Visit} (hv : v ∈ root.visits c maxDepth) {o : Opening}
    (ho : v.owner = some o) : o ∈ root.openings c maxDepth := by
  rcases Visit.owner_of_below hv with howner | ⟨o', ho', howner⟩
  · rw [howner] at ho
    cases ho
  · obtain rfl := Option.some.inj (ho.symm.trans howner)
    exact ho'

theorem ownerScope?_mem_openings {o : Opening} (h : root.Reaches maxDepth p t)
    (ho : root.ownerScope? (root.localOwner p) = some o) : o ∈ root.openings c maxDepth := by
  obtain ⟨v, hv, rfl, rfl⟩ := h.exists_visit c
  rw [ownerScope?_localOwner h.1 h.2.2] at ho
  split at ho
  · rename_i hmethod
    obtain rfl := Option.some.inj ho
    refine List.mem_flatMap.2 ⟨v, hv, ?_⟩
    simp [Visit.openings, opens, shape_of_isMethod hmethod]
  · exact owner_mem_openings hv ((faithful_of_visits hv).owner.trans ho)

end SyntaxTree

theorem scopeNumber_inj {opened : List Opening} {o o' : Option Opening}
    (ho : ∀ s, o = some s → s ∈ opened) (h : scopeNumber opened o = scopeNumber opened o') :
    o = o' := by
  cases o with
  | none => cases o' with
    | none => rfl
    | some s => cases h
  | some s => cases o' with
    | none => cases h
    | some s' => exact congrArg some ((List.idxOf_inj (ho s rfl)).1 (Nat.succ.inj h))

namespace SourceUnit
variable {root t : SyntaxTree} {maxDepth : Nat} {p : List Nat}

theorem localsIn_eq (scope : Nat) :
    Event.localsIn (Event.numbered 1 [] (root.events (.ofTree root) [] (maxDepth + 1))) scope =
      Dict.ofList ((root.visits (.ofTree root) maxDepth).flatMap fun v =>
        if scopeNumber (root.openings (.ofTree root) maxDepth) v.owner = scope then v.node.locals
        else []) := by
  rw [Event.localsIn, SyntaxTree.numbered_events, List.filterMap_flatMap]
  simp only [Visit.filterMap_localIn?_numbered]

theorem localsIn_header (q : List Nat) :
    Event.localsIn (Event.numbered 1 [] (root.events (.ofTree root) [] (maxDepth + 1)))
        (scopeNumber (root.openings (.ofTree root) maxDepth) (some (.header q))) = Dict.empty := by
  rw [localsIn_eq, List.flatMap_eq_nil_iff.2]
  · rfl
  · intro v hv
    refine if_neg fun hsame => ?_
    have howner := scopeNumber_inj (fun s hs => SyntaxTree.owner_mem_openings hv hs) hsame
    exact root.owner?_ne_header _ _ ((SyntaxTree.faithful_of_visits hv).owner ▸ howner)

theorem getElem?_scopes (path : Path) {o : Option Opening}
    (ho : ∀ s, o = some s → s ∈ root.openings (.ofTree root) maxDepth) :
    ∃ enclosing, (ofTree maxDepth path root).scopes[scopeNumber
      (root.openings (.ofTree root) maxDepth) o]? = some ⟨enclosing, Event.localsIn
        (Event.numbered 1 [] (root.events (.ofTree root) [] (maxDepth + 1)))
        (scopeNumber (root.openings (.ofTree root) maxDepth) o)⟩ := by
  cases o with
  | none => exact ⟨[], rfl⟩
  | some s =>
    have hfst : ((root.visits (.ofTree root) maxDepth).flatMap
        (Visit.entering (.ofTree root))).map Prod.fst = root.openings (.ofTree root) maxDepth := by
      rw [SyntaxTree.openings, List.map_flatMap]
      simp only [Visit.map_fst_entering]
    have hs : (root.openings (.ofTree root) maxDepth)[
        (root.openings (.ofTree root) maxDepth).idxOf s]? = some s :=
      List.getElem?_idxOf (ho s rfl)
    rw [← hfst, List.getElem?_map, hfst] at hs
    obtain ⟨x, hx, rfl⟩ := Option.map_eq_some_iff.1 hs
    refine ⟨x.2, ?_⟩
    show (List.map _ _)[(root.openings (.ofTree root) maxDepth).idxOf x.1]? = _
    rw [SyntaxTree.entered_events, List.getElem?_map, List.getElem?_map, hx]
    rfl

theorem declaresLocal_iff {v : Visit} (hv : v ∈ root.visits (.ofTree root) maxDepth)
    {name type : String} :
    (name, type) ∈ (if scopeNumber (root.openings (.ofTree root) maxDepth) v.owner =
        root.localScope maxDepth (root.localOwner p) then v.node.locals else []) ↔
      root.DeclaresLocal maxDepth (root.localOwner p) v.position name type := by
  have hreached := SyntaxTree.reaches_of_visits hv
  have hfaithful := SyntaxTree.faithful_of_visits hv
  have howner : v.node.isDeclaring = true →
      root.ownerScope? (root.localOwner v.position) = v.owner := by
    intro h
    rw [SyntaxTree.ownerScope?_localOwner hreached.1 hreached.2.2, SyntaxTree.isMethod,
      SyntaxTree.shape_of_isDeclaring h, hfaithful.owner]
    rfl
  constructor
  · intro h
    split at h
    · rename_i hscope
      obtain ⟨hdeclaring, htype, hname⟩ := SyntaxTree.mem_locals_iff.1 h
      rw [← howner hdeclaring] at hscope
      have hsame := scopeNumber_inj (fun s hs => SyntaxTree.ownerScope?_mem_openings hreached hs)
        hscope
      exact ⟨v.node, hreached, SyntaxTree.localOwner_eq_of_ownerScope?_eq hsame, hdeclaring, htype,
        hname⟩
    · cases h
  · rintro ⟨u, hu, hsame, hdeclaring, htype, hname⟩
    obtain rfl : v.node = u := Option.some.inj (hreached.1.symm.trans hu.1)
    rw [if_pos (by rw [← howner hdeclaring, hsame]; rfl)]
    exact SyntaxTree.mem_locals_iff.2 ⟨hdeclaring, htype, hname⟩

/-- The locals of an owner's scope are what the nodes that belong to it declare, and of the
declarations of one name the last in preorder counts. -/
theorem exists_scope_of_owner (path : Path) (hp : root.Reaches maxDepth p t) :
    ∃ s, (ofTree maxDepth path root).scopes[root.localScope maxDepth (root.localOwner p)]? = some s ∧
      ∀ name type, s.locals.get? name = some type ↔
        root.LastLocal maxDepth (root.localOwner p) name type := by
  have hsorted : (root.visits (.ofTree root) maxDepth).Pairwise fun v w => v.position < w.position :=
    Visit.pairwise_below _ _ _
  obtain ⟨enclosing, hscope⟩ := getElem?_scopes path
    fun s hs => SyntaxTree.ownerScope?_mem_openings (c := .ofTree root) hp hs
  refine ⟨_, hscope, fun name type => ?_⟩
  dsimp only
  rw [localsIn_eq, Dict.get?_ofList_flatMap_iff hsorted]
  -- the greatest visit that declares the name is the last declaration in preorder
  · constructor
    · rintro ⟨v, hv, hdeclares, hlast⟩
      refine ⟨v.position, (declaresLocal_iff hv).1 hdeclares, fun q type' hq => ?_⟩
      have ⟨u, hu, _⟩ := hq
      obtain ⟨w, hw, rfl, -⟩ := hu.exists_visit (.ofTree root)
      exact hlast w hw type' ((declaresLocal_iff hw).2 hq)
    · rintro ⟨q, hq, hlast⟩
      have ⟨u, hu, _⟩ := hq
      obtain ⟨v, hv, rfl, -⟩ := hu.exists_visit (.ofTree root)
      exact ⟨v, hv, (declaresLocal_iff hv).2 hq,
        fun w hw type' hw' => hlast _ type' ((declaresLocal_iff hw).1 hw')⟩
  · intro v e he e' he'
    split at he
    · rename_i hsame
      rw [if_pos hsame] at he'
      have htype := (SyntaxTree.mem_locals_iff.1 he).2.1
      exact Option.some.inj (htype.symm.trans (SyntaxTree.mem_locals_iff.1 he').2.1)
    · cases he

/-- In sight of a call or a member access are the locals of the owner, and none of a supertype, which
stands in the scope of a header. -/
theorem exists_scope_of_reference (path : Path) {r : Reference} (hp : root.Reaches maxDepth p t)
    (hr : r ∈ root.referencesOf maxDepth p) :
    ∃ s, (ofTree maxDepth path root).scopes[r.scope]? = some s ∧
      (r.mention.kind ≠ .inherits → r.scope = root.localScope maxDepth (root.localOwner p)) ∧
      ∀ name type, s.locals.get? name = some type ↔
        r.mention.kind ≠ .inherits ∧ root.LastLocal maxDepth (root.localOwner p) name type := by
  rw [SyntaxTree.referencesOf, SyntaxTree.referencesAt, hp.1] at hr
  cases hshape : t.shape with
  | preamble => simp [hshape] at hr
  | method => simp [hshape] at hr
  | namedType declared =>
    -- a supertype stands in the scope of the header, where nothing is declared
    simp only [hshape, List.mem_map] at hr
    obtain ⟨supertype, -, rfl⟩ := hr
    obtain ⟨v, hv, rfl, rfl⟩ := hp.exists_visit (.ofTree root)
    have hopened : Opening.header v.position ∈ root.openings (.ofTree root) maxDepth :=
      List.mem_flatMap.2 ⟨v, hv, by simp [Visit.openings, SyntaxTree.opens, hshape]⟩
    obtain ⟨enclosing, hscope⟩ := getElem?_scopes (o := some (.header v.position)) path
      fun s hs => Option.some.inj hs ▸ hopened
    refine ⟨_, hscope, fun h => absurd rfl h, fun name type => ?_⟩
    dsimp only
    rw [localsIn_header, Dict.get?_empty]
    simp [Mention.kind]
  | plain =>
    simp only [hshape, List.mem_map, Option.mem_toList] at hr
    obtain ⟨m, hm, rfl⟩ := hr
    have howner : scopeNumber (root.openings (.ofTree root) maxDepth) (root.owner? p) =
        root.localScope maxDepth (root.localOwner p) := by
      rw [SyntaxTree.localScope, SyntaxTree.ownerScope?_localOwner hp.1 hp.2.2,
        SyntaxTree.isMethod, hshape]
      rfl
    obtain ⟨s, hs, hlocals⟩ := exists_scope_of_owner path hp
    have hkind : m.kind ≠ .inherits :=
      SyntaxTree.kind_of_occurs (SyntaxTree.occurs_of_mention? hm)
    refine ⟨s, by rw [howner]; exact hs, fun _ => howner, fun name type => ?_⟩
    rw [hlocals]
    exact (and_iff_right hkind).symm

end SourceUnit

end PackageModularity

import Mathlib.Logic.Relation
import PackageModularity.Proofs.Source.RecordedOccurrences

/-!
Comments added to a tree. Nearly all of the reading finds the children of a node by their role or kind,
so that a comment among them is passed over. In four kinds of nodes a child is taken by its place, and
there a comment in that place is read in its stead.
-/
namespace PackageModularity

namespace SyntaxTree

def commentNode (text : Option String) : SyntaxTree := .node .comment .none text []

/-- A tree, and the tree with a comment added after some and before the other children of a node, if
that is allowed in a node of its kind. -/
inductive AddsComment (allowed : NodeKind → List SyntaxTree → List SyntaxTree → Prop) :
    SyntaxTree → SyntaxTree → Prop where
  | here {kind : NodeKind} {role : Role} {text : Option String} {before after : List SyntaxTree}
      (note : Option String) (h : allowed kind before after) :
      AddsComment allowed (.node kind role text (before ++ after))
        (.node kind role text (before ++ commentNode note :: after))
  | inside {kind : NodeKind} {role : Role} {text : Option String} {before after : List SyntaxTree}
      {t t' : SyntaxTree} (h : AddsComment allowed t t') :
      AddsComment allowed (.node kind role text (before ++ t :: after))
        (.node kind role text (before ++ t' :: after))

def Anywhere (_ : NodeKind) (_ _ : List SyntaxTree) : Prop := True

/-- Not in the place of a child that is taken by its place, which is the first of an expression in
parentheses, of a generic type and of the types that are caught, and the last of an annotated type. -/
def OutOfPlace (kind : NodeKind) (before after : List SyntaxTree) : Prop :=
  match kind with
  | .parenthesized | .genericType | .catchType => before ≠ []
  | .annotatedType => after ≠ []
  | _ => True

/-- The children of a node before and after a comment is added among or below them. -/
inductive Amended (allowed : List SyntaxTree → List SyntaxTree → Prop)
    (P : SyntaxTree → SyntaxTree → Prop) : List SyntaxTree → List SyntaxTree → Prop where
  | comment {before after : List SyntaxTree} (note : Option String) (h : allowed before after) :
      Amended allowed P (before ++ after) (before ++ commentNode note :: after)
  | child {before after : List SyntaxTree} {t t' : SyntaxTree} (h : P t t') :
      Amended allowed P (before ++ t :: after) (before ++ t' :: after)

namespace Amended
variable {allowed : List SyntaxTree → List SyntaxTree → Prop}
  {P : SyntaxTree → SyntaxTree → Prop} {cs cs' : List SyntaxTree} {α : Type}
  {p : SyntaxTree → Bool}

theorem flatMap_eq (h : Amended allowed P cs cs') {f : SyntaxTree → List α}
    (hcomment : ∀ note, f (commentNode note) = []) (hchild : ∀ t t', P t t' → f t' = f t) :
    cs'.flatMap f = cs.flatMap f := by
  cases h with
  | comment note => simp [hcomment note]
  | child h => simp [hchild _ _ h]

theorem foldl_eq (h : Amended allowed P cs cs') {f : α → SyntaxTree → α}
    (hcomment : ∀ a note, f a (commentNode note) = a)
    (hchild : ∀ a t t', P t t' → f a t' = f a t) (a : α) : cs'.foldl f a = cs.foldl f a := by
  cases h with
  | comment note => simp [hcomment _ note]
  | child h => simp [hchild _ _ _ h]

theorem any_eq (h : Amended allowed P cs cs') (hcomment : ∀ note, p (commentNode note) = false)
    (hchild : ∀ t t', P t t' → p t' = p t) : cs'.any p = cs.any p := by
  cases h with
  | comment note => simp [hcomment note]
  | child h => simp [hchild _ _ h]

theorem filterMap_filter_eq (h : Amended allowed P cs cs') {f : SyntaxTree → Option α}
    (hcomment : ∀ note, p (commentNode note) = false) (hp : ∀ t t', P t t' → p t' = p t)
    (hchild : ∀ t t', P t t' → f t' = f t) :
    (cs'.filter p).filterMap f = (cs.filter p).filterMap f := by
  cases h with
  | comment note => simp [hcomment note]
  | @child before after t t' h =>
    by_cases ht : p t = true
    · simp [hp _ _ h, ht, hchild _ _ h, List.filterMap_cons]
    · simp [hp _ _ h, ht]

theorem bind_find?_eq (h : Amended allowed P cs cs') {f : SyntaxTree → Option α}
    (hcomment : ∀ note, p (commentNode note) = false) (hp : ∀ t t', P t t' → p t' = p t)
    (hchild : ∀ t t', P t t' → p t = true → f t' = f t) :
    (cs'.find? p).bind f = (cs.find? p).bind f := by
  cases h with
  | comment note => simp [List.find?_append, hcomment note]
  | @child before after t t' h =>
    rw [List.find?_append, List.find?_append]
    cases before.find? p with
    | some u => rfl
    | none =>
      by_cases ht : p t = true
      · simp [hp _ _ h, ht, hchild _ _ h ht]
      · simp [hp _ _ h, ht]

theorem bind_head?_eq (h : Amended allowed P cs cs') {f : SyntaxTree → Option α}
    (hallowed : ∀ before after, allowed before after → before ≠ [])
    (hchild : ∀ t t', P t t' → f t' = f t) : cs'.head?.bind f = cs.head?.bind f := by
  cases h with
  | @comment before after note h =>
    obtain ⟨u, before, rfl⟩ := List.exists_cons_of_ne_nil (hallowed _ _ h)
    rfl
  | @child before after t t' h =>
    cases before with
    | nil => exact hchild _ _ h
    | cons u before => rfl

theorem bind_getLast?_eq (h : Amended allowed P cs cs') {f : SyntaxTree → Option α}
    (hallowed : ∀ before after, allowed before after → after ≠ [])
    (hchild : ∀ t t', P t t' → f t' = f t) : cs'.getLast?.bind f = cs.getLast?.bind f := by
  cases h with
  | @comment before after note h =>
    obtain ⟨u, after, rfl⟩ := List.exists_cons_of_ne_nil (hallowed _ _ h)
    simp
  | @child before after t t' h =>
    cases after with
    | nil => simpa using hchild _ _ h
    | cons u after => simp

end Amended

namespace AddsComment
variable {allowed : NodeKind → List SyntaxTree → List SyntaxTree → Prop} {t t' : SyntaxTree}

/-- What holds of a node once it holds of the child that the comment is added below. -/
theorem induct {motive : SyntaxTree → SyntaxTree → Prop}
    (node : ∀ kind role text cs cs',
      AddsComment allowed (.node kind role text cs) (.node kind role text cs') →
      Amended (allowed kind) (fun u u' => AddsComment allowed u u' ∧ motive u u') cs cs' →
      motive (.node kind role text cs) (.node kind role text cs'))
    (h : AddsComment allowed t t') : motive t t' := by
  induction h with
  | here note h => exact node _ _ _ _ _ (.here note h) (.comment note h)
  | inside h ih => exact node _ _ _ _ _ (.inside h) (.child ⟨h, ih⟩)

theorem kind_eq (h : AddsComment allowed t t') : t'.kind = t.kind := by cases h <;> rfl

theorem role_eq (h : AddsComment allowed t t') : t'.role = t.role := by cases h <;> rfl

theorem text_eq (h : AddsComment allowed t t') : t'.text = t.text := by cases h <;> rfl

theorem children (h : AddsComment allowed t t') :
    Amended (allowed t.kind) (AddsComment allowed) t.children t'.children := by
  cases h with
  | here note h => exact .comment note h
  | inside h => exact .child h

theorem bind_child? (h : AddsComment allowed t t') {r : Role} (hr : r ≠ .none) {α : Type}
    {f : SyntaxTree → Option α} (hf : ∀ u u', AddsComment allowed u u' → f u' = f u) :
    (t'.child? r).bind f = (t.child? r).bind f :=
  h.children.bind_find?_eq (fun _ => decide_eq_false hr.symm)
    (fun _ _ hu => by rw [hu.role_eq]) fun u u' hu _ => hf u u' hu

theorem childText?_eq (h : AddsComment allowed t t') {r : Role} (hr : r ≠ .none) :
    t'.childText? r = t.childText? r :=
  h.bind_child? hr fun _ _ hu => hu.text_eq

theorem apply_childrenOf {cs cs' : List SyntaxTree} {P : List SyntaxTree → List SyntaxTree → Prop}
    (h : Amended P (AddsComment allowed) cs cs') {p : SyntaxTree → Bool}
    (hcomment : ∀ note, p (commentNode note) = false)
    (hp : ∀ u u', AddsComment allowed u u' → p u' = p u) {α : Type} {f : List SyntaxTree → List α}
    (hf : ∀ u u', AddsComment allowed u u' → f u'.children = f u.children) :
    f (((cs'.find? p).map SyntaxTree.children).getD []) =
      f (((cs.find? p).map SyntaxTree.children).getD []) := by
  have hfirst : (cs'.find? p).bind (fun u => some (f u.children)) =
      (cs.find? p).bind fun u => some (f u.children) :=
    h.bind_find?_eq hcomment hp fun u u' hu _ => congrArg some (hf u u' hu)
  cases hu : cs.find? p with
  | none =>
    cases hu' : cs'.find? p with
    | none => rfl
    | some u' =>
      rw [hu, hu'] at hfirst
      cases hfirst
  | some u =>
    cases hu' : cs'.find? p with
    | none =>
      rw [hu, hu'] at hfirst
      cases hfirst
    | some u' =>
      rw [hu, hu'] at hfirst
      exact Option.some.inj hfirst

end AddsComment

theorem firstTypeName?_eq (cs : List SyntaxTree) :
    firstTypeName? cs = cs.head?.bind typeName? := by
  cases cs <;> rfl

theorem elementTypeName?_eq (cs : List SyntaxTree) :
    elementTypeName? cs = (playing? .element cs).bind typeName? := by
  induction cs with
  | nil => rfl
  | cons u cs ih =>
    rw [elementTypeName?, playing?]
    by_cases h : u.role = .element
    · simp [h]
    · rw [if_neg h, ih, playing?, List.find?_cons_of_neg (by simpa using h)]

theorem lastTypeName?_eq (cs : List SyntaxTree) :
    lastTypeName? cs = cs.getLast?.bind typeName? := by
  induction cs with
  | nil => rfl
  | cons u cs ih =>
    cases cs with
    | nil => rfl
    | cons v cs => rw [lastTypeName?, ih, List.getLast?_cons_cons]

theorem membersFields_eq (owner : String) (cs : List SyntaxTree) :
    membersFields owner cs = cs.flatMap (memberFields owner) := by
  induction cs with
  | nil => rfl
  | cons u cs ih => rw [membersFields, ih, List.flatMap_cons]

theorem membersMethods_eq (cs : List SyntaxTree) :
    membersMethods cs = cs.flatMap memberMethods := by
  induction cs with
  | nil => rfl
  | cons u cs ih => rw [membersMethods, ih, List.flatMap_cons]

theorem firstReceiver_eq (depth : Nat) (cs : List SyntaxTree) :
    firstReceiver depth cs = (cs.head?.bind fun u => some (receiver depth u)).getD .unknown := by
  cases cs <;> rfl

namespace AddsComment
variable {allowed : NodeKind → List SyntaxTree → List SyntaxTree → Prop} {t t' : SyntaxTree}

theorem typeName?_eq (h : AddsComment OutOfPlace t t') : t'.typeName? = t.typeName? := by
  refine h.induct (motive := fun t t' => t'.typeName? = t.typeName?) ?_
  intro kind role text cs cs' _ hcs
  rw [typeName?.eq_def, typeName?.eq_def]
  dsimp only
  split
  · rfl
  · rw [firstTypeName?_eq, firstTypeName?_eq]
    exact hcs.bind_head?_eq (fun _ _ hplace => hplace) fun _ _ hu => hu.2
  · rw [elementTypeName?_eq, elementTypeName?_eq]
    exact hcs.bind_find?_eq (fun _ => rfl) (fun _ _ hu => by rw [hu.1.role_eq])
      fun _ _ hu _ => hu.2
  · rw [lastTypeName?_eq, lastTypeName?_eq]
    exact hcs.bind_getLast?_eq (fun _ _ hplace => hplace) fun _ _ hu => hu.2
  · rfl

theorem childTypeName?_eq (h : AddsComment OutOfPlace t t') :
    t'.childTypeName? = t.childTypeName? :=
  h.bind_child? (r := .type) (by decide) fun _ _ hu => hu.typeName?_eq

theorem isType_eq (h : AddsComment allowed t t') : t'.isType = t.isType := by
  rw [isType, isType, h.kind_eq]

theorem typeNames_eq (h : AddsComment OutOfPlace t t') :
    (t'.children.filter isType).filterMap typeName? =
      (t.children.filter isType).filterMap typeName? :=
  h.children.filterMap_filter_eq (fun _ => rfl) (fun _ _ hu => hu.isType_eq)
    fun _ _ hu => hu.typeName?_eq

theorem clauseNames_eq (h : AddsComment OutOfPlace t t') :
    (t'.clauseTypes.filter isType).filterMap typeName? =
      (t.clauseTypes.filter isType).filterMap typeName? := by
  rw [clauseTypes, clauseTypes, h.kind_eq]
  split
  · exact h.typeNames_eq
  · exact apply_childrenOf (f := fun us => (us.filter isType).filterMap typeName?) h.children
      (fun _ => rfl) (fun _ _ hu => by rw [hu.kind_eq]) fun _ _ hu => hu.typeNames_eq
  · rfl

theorem supertypeNames_eq (h : AddsComment OutOfPlace t t') :
    t'.supertypeNames = t.supertypeNames := by
  rw [supertypeNames, supertypeNames, List.filter_flatMap, List.filter_flatMap,
    List.filterMap_flatMap, List.filterMap_flatMap]
  exact h.children.flatMap_eq (fun _ => rfl) fun _ _ hu => hu.clauseNames_eq

theorem declaratorNames_eq (h : AddsComment allowed t t') :
    t'.declaratorNames = t.declaratorNames :=
  h.children.filterMap_filter_eq (fun _ => rfl) (fun _ _ hu => by rw [hu.kind_eq])
    fun _ _ hu => hu.childText?_eq (by decide)

theorem components_eq (h : AddsComment OutOfPlace t t') : t'.components = t.components := by
  refine apply_childrenOf (f := fun us => (us.filter (·.kind = .formalParameter)).filterMap
    fun p => do some (← p.childText? .name, ← p.childTypeName?)) (p := (·.role = .parameters))
    h.children (fun _ => rfl) (fun _ _ hu => by rw [hu.role_eq]) fun u u' hu => ?_
  refine hu.children.filterMap_filter_eq (fun _ => rfl) (fun _ _ hp => by rw [hp.kind_eq]) ?_
  intro p p' hp
  rw [hp.childText?_eq (r := .name) (by decide), hp.childTypeName?_eq]

theorem memberFields_eq (h : AddsComment OutOfPlace t t') (owner : String) :
    memberFields owner t' = memberFields owner t := by
  refine h.induct (motive := fun t t' => memberFields owner t' = memberFields owner t) ?_
  intro kind role text cs cs' h hcs
  have hname : (playing? .name cs').bind SyntaxTree.text =
      (playing? .name cs).bind SyntaxTree.text := h.childText?_eq (by decide)
  rw [memberFields.eq_def, memberFields.eq_def]
  dsimp only
  rw [h.childTypeName?_eq, h.declaratorNames_eq, hname, membersFields_eq, membersFields_eq,
    hcs.flatMap_eq (fun _ => rfl) fun _ _ hu => hu.2]

theorem memberMethods_eq (h : AddsComment OutOfPlace t t') :
    t'.memberMethods = t.memberMethods := by
  refine h.induct (motive := fun t t' => t'.memberMethods = t.memberMethods) ?_
  intro kind role text cs cs' h hcs
  have hname : (playing? .name cs').bind SyntaxTree.text =
      (playing? .name cs).bind SyntaxTree.text := h.childText?_eq (by decide)
  rw [memberMethods.eq_def, memberMethods.eq_def]
  dsimp only
  rw [h.childTypeName?_eq, hname, membersMethods_eq, membersMethods_eq,
    hcs.flatMap_eq (fun _ => rfl) fun _ _ hu => hu.2]

theorem declaration_eq (h : AddsComment OutOfPlace t t') (name qualifiedName : String)
    (enclosing : List String) :
    t'.declaration name qualifiedName enclosing = t.declaration name qualifiedName enclosing := by
  have hfields : membersFields name (((t'.child? .body).map SyntaxTree.children).getD []) =
      membersFields name (((t.child? .body).map SyntaxTree.children).getD []) := by
    refine apply_childrenOf (p := (·.role = .body)) h.children (fun _ => rfl)
      (fun _ _ hu => by rw [hu.role_eq]) fun u u' hu => ?_
    rw [membersFields_eq, membersFields_eq]
    exact hu.children.flatMap_eq (fun _ => rfl) fun _ _ hm => hm.memberFields_eq name
  have hmethods : membersMethods (((t'.child? .body).map SyntaxTree.children).getD []) =
      membersMethods (((t.child? .body).map SyntaxTree.children).getD []) := by
    refine apply_childrenOf (p := (·.role = .body)) h.children (fun _ => rfl)
      (fun _ _ hu => by rw [hu.role_eq]) fun u u' hu => ?_
    rw [membersMethods_eq, membersMethods_eq]
    exact hu.children.flatMap_eq (fun _ => rfl) fun _ _ hm => hm.memberMethods_eq
  rw [declaration, declaration, h.supertypeNames_eq, h.components_eq, hfields, hmethods]

theorem localType?_eq (h : AddsComment OutOfPlace t t') : t'.localType? = t.localType? := by
  rw [localType?, localType?, h.kind_eq]
  split
  · refine h.children.bind_find?_eq (fun _ => rfl) (fun _ _ hu => by rw [hu.kind_eq]) ?_
    intro u u' hu hcaught
    rw [firstTypeName?_eq, firstTypeName?_eq]
    refine hu.children.bind_head?_eq (fun before after hplace => ?_) fun _ _ ht => ht.typeName?_eq
    rw [of_decide_eq_true hcaught] at hplace
    exact hplace
  · exact h.childTypeName?_eq

theorem localEvents_eq (h : AddsComment OutOfPlace t t') : t'.localEvents = t.localEvents := by
  rw [localEvents, localEvents, locals, locals, localNames, localNames, h.kind_eq, h.localType?_eq,
    h.declaratorNames_eq, h.childText?_eq (r := .name) (by decide)]

theorem receiver_eq (h : AddsComment OutOfPlace t t') (depth : Nat) :
    receiver depth t' = receiver depth t := by
  refine h.induct (motive := fun t t' => ∀ depth, receiver depth t' = receiver depth t) ?_ depth
  intro kind role text cs cs' h hcs depth
  cases depth with
  | zero => rfl
  | succ depth =>
    have hobject : objectReceiver depth cs' = objectReceiver depth cs := by
      rw [objectReceiver_eq, objectReceiver_eq, Option.map_eq_bind, Option.map_eq_bind]
      exact hcs.bind_find?_eq (fun _ => rfl) (fun _ _ hu => by rw [hu.1.role_eq])
        fun _ _ hu _ => congrArg some (hu.2 depth)
    rw [receiver.eq_def, receiver.eq_def]
    dsimp only
    rw [hobject, h.childText?_eq (r := .field) (by decide), h.childText?_eq (r := .name) (by decide),
      h.childTypeName?_eq]
    split
    case h_8 =>
      rw [firstReceiver_eq, firstReceiver_eq]
      exact congrArg (Option.getD · _) (hcs.bind_head?_eq (fun _ _ hplace => hplace)
        fun _ _ hu => congrArg some (hu.2 depth))
    all_goals rfl

theorem objectReceiver_eq (h : AddsComment OutOfPlace t t') (depth : Nat) :
    objectReceiver depth t'.children = objectReceiver depth t.children := by
  rw [SyntaxTree.objectReceiver_eq, SyntaxTree.objectReceiver_eq, Option.map_eq_bind,
    Option.map_eq_bind]
  exact h.bind_child? (r := .object) (by decide) fun _ _ hu => congrArg some (hu.receiver_eq depth)

theorem mention?_eq (h : AddsComment OutOfPlace t t') (depth : Nat) :
    t'.mention? depth = t.mention? depth := by
  rw [mention?, mention?, h.kind_eq, h.objectReceiver_eq, h.childText?_eq (r := .name) (by decide)]
  split
  · rfl
  · cases objectReceiver depth t.children with
    | none => rfl
    | some object =>
      refine h.bind_child? (r := .field) (by decide) fun u u' hu => ?_
      rw [hu.kind_eq, hu.text_eq]
  · rfl

theorem events_eq (h : AddsComment OutOfPlace t t') (c : FileContext) (enclosing : List String)
    (depth : Nat) : t'.events c enclosing depth = t.events c enclosing depth := by
  refine h.induct (motive := fun t t' => ∀ enclosing depth,
    t'.events c enclosing depth = t.events c enclosing depth) ?_ enclosing depth
  intro kind role text cs cs' h hcs enclosing depth
  cases depth with
  | zero => rfl
  | succ depth =>
    have hcomment : ∀ enclosing note, (commentNode note).events c enclosing depth = [] := by
      intro enclosing note
      cases depth <;> rfl
    have hall : eventsOfAll c enclosing depth cs' = eventsOfAll c enclosing depth cs := by
      rw [eventsOfAll_eq, eventsOfAll_eq]
      exact hcs.flatMap_eq (hcomment enclosing) fun _ _ hu => hu.2 enclosing depth
    have hbody : ∀ inner, eventsOfBody c inner depth cs' = eventsOfBody c inner depth cs := by
      intro inner
      rw [eventsOfBody_eq, eventsOfBody_eq, Option.map_eq_bind, Option.map_eq_bind]
      exact congrArg (Option.getD · _) (hcs.bind_find?_eq (fun _ => rfl)
        (fun _ _ hu => by rw [hu.1.role_eq]) fun _ _ hu _ => congrArg some (hu.2 inner depth))
    rw [events.eq_def, events.eq_def]
    dsimp only
    simp only [h.childText?_eq (r := .name) (by decide), h.supertypeNames_eq, h.declaration_eq,
      h.localEvents_eq, h.mention?_eq, hall, hbody]

theorem importedName?_eq (h : AddsComment allowed t t') : t'.importedName? = t.importedName? := by
  have hnames : (t'.children.filter isName).map compactText? =
      (t.children.filter isName).map compactText? := by
    rw [← List.filterMap_eq_map]
    exact h.children.filterMap_filter_eq (fun _ => rfl)
      (fun _ _ hu => by rw [isName, isName, hu.kind_eq])
      fun _ _ hu => congrArg some (by rw [compactText?, compactText?, hu.text_eq])
  have hlast : ∀ us : List SyntaxTree,
      us.getLast?.bind compactText? = (us.map compactText?).getLast?.bind id := by
    intro us
    rw [List.getLast?_map, Option.bind_map]
    rfl
  rw [importedName?, importedName?, hlast, hlast, hnames]

theorem hasChild_eq (h : AddsComment allowed t t') {k : NodeKind} (hk : k ≠ .comment) :
    t'.hasChild k = t.hasChild k :=
  h.children.any_eq (fun _ => decide_eq_false hk.symm) fun _ _ hu => by rw [hu.kind_eq]

theorem add_eq (h : AddsComment allowed t t') (c : FileContext) : c.add t' = c.add t := by
  have hpackage : (t'.children.find? isName).bind compactText? =
      (t.children.find? isName).bind compactText? :=
    h.children.bind_find?_eq (fun _ => rfl) (fun _ _ hu => by rw [isName, isName, hu.kind_eq])
      fun _ _ hu _ => by rw [compactText?, compactText?, hu.text_eq]
  rw [FileContext.add, FileContext.add, FileContext.addImport, FileContext.addImport, h.kind_eq,
    hpackage, h.importedName?_eq, h.hasChild_eq (k := .staticKeyword) (by decide),
    h.hasChild_eq (k := .asterisk) (by decide)]

theorem context_eq (h : AddsComment allowed t t') : FileContext.ofTree t' = FileContext.ofTree t :=
  h.children.foldl_eq (fun _ _ => rfl) (fun c _ _ hu => hu.add_eq c) default

theorem ofTree_eq (h : AddsComment OutOfPlace t t') (maxDepth : Nat) (path : Path) :
    SourceUnit.ofTree maxDepth path t' = SourceUnit.ofTree maxDepth path t := by
  rw [SourceUnit.ofTree, SourceUnit.ofTree, h.context_eq, h.events_eq]

end AddsComment

/-- Any number of comments, each added anywhere but in the place of a child that is taken by its
place, leave the unit of a tree as it is. -/
theorem ofTree_of_comments {root root' : SyntaxTree}
    (h : Relation.ReflTransGen (AddsComment OutOfPlace) root root') (maxDepth : Nat)
    (path : Path) : SourceUnit.ofTree maxDepth path root' = SourceUnit.ofTree maxDepth path root := by
  induction h with
  | refl => rfl
  | tail _ hlast ih => exact (hlast.ofTree_eq maxDepth path).trans ih

/-- `class A { void run(H h) { (h).f(); } }` with these nodes in the parentheses. -/
def parenthesizedCall (inner : List SyntaxTree) : SyntaxTree :=
  let parameter : SyntaxTree := .node .formalParameter .none (some "H h")
    [.node .typeIdentifier .type (some "H") [], .node .identifier .name (some "h") []]
  let call : SyntaxTree := .node .methodInvocation .none (some "(h).f()")
    [.node .parenthesized .object (some "(h)") inner, .node .identifier .name (some "f") []]
  let run : SyntaxTree := .node .methodDeclaration .none none
    [.node .voidType .type (some "void") [], .node .identifier .name (some "run") [],
      .node .other .parameters (some "(H h)") [parameter],
      .node .other .body none [.node .other .none (some "(h).f();") [call]]]
  .node .other .none none
    [.node .typeDeclaration .none none
      [.node .identifier .name (some "A") [], .node .other .body none [run]]]

def plainName : SyntaxTree := .node .identifier .none (some "h") []

theorem addsComment_parenthesizedCall
    {allowed : NodeKind → List SyntaxTree → List SyntaxTree → Prop} {before after : List SyntaxTree}
    (note : Option String) (h : allowed .parenthesized before after) :
    AddsComment allowed (parenthesizedCall (before ++ after))
      (parenthesizedCall (before ++ commentNode note :: after)) :=
  -- the file, its class, the body, the method, its block, the statement, the call
  @AddsComment.inside _ _ _ _ [] [] _ _
    (@AddsComment.inside _ _ _ _ [_] [] _ _
      (@AddsComment.inside _ _ _ _ [] [] _ _
        (@AddsComment.inside _ _ _ _ [_, _, _] [] _ _
          (@AddsComment.inside _ _ _ _ [] [] _ _
            (@AddsComment.inside _ _ _ _ [] [] _ _
              (@AddsComment.inside _ _ _ _ [] [_] _ _ (.here note h)))))))

/-- `(h /* a */ /* b */).f()` calls the same method as `(h).f()`. -/
theorem ofTree_of_comments_behind :
    Relation.ReflTransGen (AddsComment OutOfPlace) (parenthesizedCall [plainName])
      (parenthesizedCall [plainName, commentNode (some "/* a */"), commentNode (some "/* b */")]) ∧
    (SourceUnit.ofTree 512 (.ofText "A.java") (parenthesizedCall
      [plainName, commentNode (some "/* a */"), commentNode (some "/* b */")])).references =
        [⟨.call (some (.name "h")) "f", 3⟩] := by
  have hadded : Relation.ReflTransGen (AddsComment OutOfPlace) (parenthesizedCall [plainName])
      (parenthesizedCall [plainName, commentNode (some "/* a */"),
        commentNode (some "/* b */")]) :=
    .tail (.single (@addsComment_parenthesizedCall _ [plainName] [] _ (by simp [OutOfPlace])))
      (@addsComment_parenthesizedCall _ [plainName, _] [] _ (by simp [OutOfPlace]))
  refine ⟨hadded, ?_⟩
  rw [ofTree_of_comments hadded]
  rfl

/-- In `(/* c */ h).f()` the comment is read in the place of the name, and nothing is known of what
the method is called on. -/
theorem receiver_hidden_by_comment :
    Relation.ReflTransGen (AddsComment Anywhere) (parenthesizedCall [plainName])
      (parenthesizedCall [commentNode (some "/* c */"), plainName]) ∧
    SourceUnit.ofTree 512 (.ofText "A.java") (parenthesizedCall
      [commentNode (some "/* c */"), plainName]) ≠
        SourceUnit.ofTree 512 (.ofText "A.java") (parenthesizedCall [plainName]) := by
  refine ⟨.single (@addsComment_parenthesizedCall _ [] [plainName] _ trivial), fun h => ?_⟩
  have hplain : (SourceUnit.ofTree 512 (.ofText "A.java") (parenthesizedCall
      [plainName])).references = [⟨.call (some (.name "h")) "f", 3⟩] := rfl
  have hcomment : (SourceUnit.ofTree 512 (.ofText "A.java") (parenthesizedCall
      [commentNode (some "/* c */"), plainName])).references =
        [⟨.call (some .unknown) "f", 3⟩] := rfl
  rw [h, hplain] at hcomment
  cases hcomment

end SyntaxTree

end PackageModularity

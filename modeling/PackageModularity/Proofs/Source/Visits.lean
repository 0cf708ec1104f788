import Mathlib.Data.List.Forall2
import Mathlib.Data.List.Infix
import Mathlib.Data.List.Lex
import PackageModularity.Proofs.Source.NestedTypes

/-!
The nodes that the reading of a file visits, in the order in which it does. Every node has a position,
the numbers of the children that lead to it, and a visited node an opening too, the scope it stands in.
From what a node does by itself follow its events: those at its start, those of the children that the
reading goes into, and those at its end.
-/
namespace PackageModularity

/-- What a node is to the reading of a file. -/
inductive Shape where
  | preamble
  | namedType (name : String)
  | method
  | plain

/-- A scope, by the position of the node that opens it. A named type opens two. -/
inductive Opening where
  | header (position : List Nat)
  | body (position : List Nat)
  | method (position : List Nat)
  deriving DecidableEq

namespace SyntaxTree

def at? : SyntaxTree → List Nat → Option SyntaxTree
  | t, [] => some t
  | t, i :: p => t.children[i]?.bind fun u => u.at? p

def shape (t : SyntaxTree) : Shape :=
  match t.kind with
  | .packageDeclaration | .importDeclaration => .preamble
  | .typeDeclaration =>
    match t.childText? .name with
    | some name => .namedType name
    | none => .plain
  | .methodDeclaration | .constructorDeclaration => .method
  | _ => .plain

def bodyNumber? (t : SyntaxTree) : Option Nat := t.children.findIdx? (·.role = .body)

def goesInto (t : SyntaxTree) (i : Nat) : Bool :=
  match t.shape with
  | .preamble => false
  | .namedType _ => t.bodyNumber? = some i
  | .method | .plain => true

def entered (t : SyntaxTree) : List (SyntaxTree × Nat) :=
  t.children.zipIdx.filter fun e => t.goesInto e.2

/-- The scope that the children of a node at this position stand in, if the node opens one. -/
def opening? (t : SyntaxTree) (position : List Nat) : Option Opening :=
  match t.shape with
  | .namedType _ => some (.body position)
  | .method => some (.method position)
  | .preamble | .plain => none

section
variable (c : FileContext) (enclosing : List String)

/-- The types around the children of a node that lies in some types. -/
def innerTypes (t : SyntaxTree) : List String :=
  match t.shape with
  | .namedType name => qualified c enclosing name :: enclosing
  | .preamble | .method | .plain => enclosing

def startEvents (depth : Nat) (t : SyntaxTree) : List Event :=
  match t.shape with
  | .preamble => []
  | .namedType name =>
    let q := qualified c enclosing name
    [.enter enclosing] ++ t.supertypeNames.map (fun s => .mention (.supertype s)) ++
      [.leave, .define (t.declaration name q enclosing), .enter (q :: enclosing)]
  | .method => [.enter enclosing]
  | .plain => t.localEvents ++ (t.mention? depth).toList.map .mention

def endEvents (t : SyntaxTree) : List Event :=
  match t.shape with
  | .namedType _ | .method => [.leave]
  | .preamble | .plain => []

end

theorem at?_append (t : SyntaxTree) (p q : List Nat) :
    t.at? (p ++ q) = (t.at? p).bind fun u => u.at? q := by
  induction p generalizing t with
  | nil => rfl
  | cons i p ih =>
    rw [List.cons_append, at?, at?]
    cases t.children[i]? with
    | none => rfl
    | some u => exact ih u

theorem at?_concat (t : SyntaxTree) (p : List Nat) (i : Nat) :
    t.at? (p ++ [i]) = (t.at? p).bind fun u => u.children[i]? := by
  rw [at?_append]
  congr
  funext u
  rw [at?]
  cases u.children[i]? <;> rfl

theorem mem_entered_iff {t : SyntaxTree} {e : SyntaxTree × Nat} :
    e ∈ t.entered ↔ t.children[e.2]? = some e.1 ∧ t.goesInto e.2 = true := by
  rw [entered, List.mem_filter, List.mem_zipIdx_iff_getElem?]

theorem pairwise_zipIdx {α : Type} (l : List α) : l.zipIdx.Pairwise fun e e' => e.2 < e'.2 := by
  rw [← List.pairwise_map (f := Prod.snd) (R := (· < ·)), List.zipIdx_map_snd]
  exact List.pairwise_lt_range'

theorem map_fst_filter_zipIdx {α : Type} (f : α → Bool) (l : List α) (k : Nat) :
    ((l.zipIdx k).filter fun e => (l.findIdx? f).map (· + k) = some e.2).map Prod.fst =
      (l.find? f).toList := by
  induction l generalizing k with
  | nil => rfl
  | cons a l ih =>
    rw [List.zipIdx_cons, List.findIdx?_cons, List.find?_cons]
    cases f a with
    | true =>
      have hlater : (l.zipIdx (k + 1)).filter (fun e => k = e.2) = [] := by
        rw [List.filter_eq_nil_iff]
        intro e he
        have hle := List.le_snd_of_mem_zipIdx he
        rw [decide_eq_true_eq]
        omega
      simp only [if_true, Option.map_some, Nat.zero_add, Option.some.injEq, List.filter_cons,
        decide_true, hlater]
      rfl
    | false =>
      have hshift : ((l.findIdx? f).map (· + 1)).map (· + k) =
          (l.findIdx? f).map (· + (k + 1)) := by
        cases l.findIdx? f with
        | none => rfl
        | some i => exact congrArg some (show i + 1 + k = i + (k + 1) by omega)
      have hfirst : ¬ (l.findIdx? f).map (· + (k + 1)) = some k := by
        cases l.findIdx? f with
        | none => simp
        | some i =>
          rw [Option.map_some, Option.some.injEq]
          omega
      simp only [Bool.false_eq_true, if_false, hshift, List.filter_cons, hfirst, decide_false]
      exact ih (k + 1)

theorem map_fst_entered_of_namedType {t : SyntaxTree} {name : String}
    (h : t.shape = .namedType name) :
    t.entered.map Prod.fst = (playing? .body t.children).toList := by
  have hfirst := map_fst_filter_zipIdx (fun u : SyntaxTree => u.role = .body) t.children 0
  simp only [Nat.add_zero, Option.map_id'] at hfirst
  simp only [entered, goesInto, h, bodyNumber?]
  exact hfirst

theorem map_fst_entered {t : SyntaxTree} (h : ∀ i, t.goesInto i = true) :
    t.entered.map Prod.fst = t.children := by
  rw [entered, List.filter_eq_self.2 fun e _ => h e.2, List.zipIdx_map_fst]

theorem entered_of_preamble {t : SyntaxTree} (h : t.shape = .preamble) : t.entered = [] := by
  rw [entered, List.filter_eq_nil_iff]
  intro e _
  simp [goesInto, h]

section
variable (c : FileContext) (enclosing : List String) (depth : Nat)

def enteredEvents (t : SyntaxTree) : List Event :=
  t.entered.flatMap fun e => e.1.events c enclosing depth

theorem enteredEvents_eq (t : SyntaxTree) : t.enteredEvents c enclosing depth =
    (t.entered.map Prod.fst).flatMap (events c enclosing depth) := by
  rw [enteredEvents, List.flatMap_map]

theorem enteredEvents_of_namedType {t : SyntaxTree} {name : String}
    (h : t.shape = .namedType name) :
    t.enteredEvents c enclosing depth = eventsOfBody c enclosing depth t.children := by
  rw [enteredEvents_eq, map_fst_entered_of_namedType h, eventsOfBody_eq]
  cases playing? .body t.children with
  | none => rfl
  | some body => exact List.flatMap_singleton _ _

theorem enteredEvents_of_all {t : SyntaxTree} (h : ∀ i, t.goesInto i = true) :
    t.enteredEvents c enclosing depth = eventsOfAll c enclosing depth t.children := by
  rw [enteredEvents_eq, map_fst_entered h, eventsOfAll_eq]

theorem events_succ (t : SyntaxTree) :
    t.events c enclosing (depth + 1) = t.startEvents c enclosing depth ++
      t.enteredEvents c (t.innerTypes c enclosing) depth ++ t.endEvents := by
  have hpreamble : t.shape = .preamble → t.startEvents c enclosing depth ++
      t.enteredEvents c (t.innerTypes c enclosing) depth ++ t.endEvents = [] := by
    intro h
    simp [startEvents, endEvents, enteredEvents, entered_of_preamble h, h]
  have hmethod : t.shape = .method → t.startEvents c enclosing depth ++
      t.enteredEvents c (t.innerTypes c enclosing) depth ++ t.endEvents =
        [.enter enclosing] ++ eventsOfAll c enclosing depth t.children ++ [.leave] := by
    intro h
    have hinto : ∀ i, t.goesInto i = true := fun i => by rw [goesInto, h]
    simp only [startEvents, endEvents, innerTypes, h, enteredEvents_of_all c _ depth hinto]
  have hplain : t.shape = .plain → t.startEvents c enclosing depth ++
      t.enteredEvents c (t.innerTypes c enclosing) depth ++ t.endEvents =
        t.localEvents ++ (t.mention? depth).toList.map .mention ++
          eventsOfAll c enclosing depth t.children := by
    intro h
    have hinto : ∀ i, t.goesInto i = true := fun i => by rw [goesInto, h]
    simp only [startEvents, endEvents, innerTypes, h, enteredEvents_of_all c _ depth hinto,
      List.append_nil]
  -- `events` has an equation for some of the kinds, and one for all others
  obtain ⟨kind, role, text, nodes⟩ := t
  rw [events.eq_def]
  dsimp only
  split
  · exact (hpreamble rfl).symm
  · exact (hpreamble rfl).symm
  · split
    · rename_i hname
      have hshape : (node .typeDeclaration role text nodes).shape = .plain := by
        simp only [shape, kind, hname]
      exact (hplain hshape).symm
    · rename_i name hname
      have hshape : (node .typeDeclaration role text nodes).shape = .namedType name := by
        simp only [shape, kind, hname]
      simp only [startEvents, endEvents, innerTypes, hshape,
        enteredEvents_of_namedType c _ depth hshape]
      rfl
  · exact (hmethod rfl).symm
  · exact (hmethod rfl).symm
  · have hshape : (node kind role text nodes).shape = .plain := by
      cases kind <;> first | rfl | contradiction
    exact (hplain hshape).symm

end

/-- Some node above a position has a property, with the number of its child on the way down. -/
def Under (root : SyntaxTree) (P : SyntaxTree → Nat → Prop) (p : List Nat) : Prop :=
  ∃ q i t, q ++ [i] <+: p ∧ root.at? q = some t ∧ P t i

def InPreamble (root : SyntaxTree) (p : List Nat) : Prop :=
  root.Under (fun t _ => t.shape = .preamble) p

/-- In the header of a named type, which is all of it but its body. -/
def InHeader (root : SyntaxTree) (p : List Nat) : Prop :=
  root.Under (fun t i => ∃ name, t.shape = .namedType name ∧ t.bodyNumber? ≠ some i) p

def Read (root : SyntaxTree) (p : List Nat) : Prop := ¬ root.InPreamble p ∧ ¬ root.InHeader p

/-- The scope of the nearest node around a position that opens one. -/
def owner? (root : SyntaxTree) (p : List Nat) : Option Opening :=
  (p.inits.dropLast.filterMap fun q => (root.at? q).bind fun t => t.opening? q).getLast?

section
variable {root t : SyntaxTree} {P : SyntaxTree → Nat → Prop} {p : List Nat} {i : Nat}

theorem goesInto_iff : t.goesInto i = true ↔
    t.shape ≠ .preamble ∧ ∀ name, t.shape = .namedType name → t.bodyNumber? = some i := by
  rw [goesInto]
  cases t.shape <;> simp

theorem under_concat (ht : root.at? p = some t) :
    root.Under P (p ++ [i]) ↔ root.Under P p ∨ P t i := by
  constructor
  · rintro ⟨q, j, u, hq, hu, hP⟩
    rcases List.prefix_concat_iff.1 hq with hq | hq
    · obtain ⟨rfl, hj⟩ := List.append_inj' hq rfl
      obtain rfl := List.singleton_inj.1 hj
      rw [ht] at hu
      exact .inr (Option.some.inj hu ▸ hP)
    · exact .inl ⟨q, j, u, hq, hu, hP⟩
  · rintro (⟨q, j, u, hq, hu, hP⟩ | hP)
    · exact ⟨q, j, u, hq.trans (List.prefix_append _ _), hu, hP⟩
    · exact ⟨p, i, t, List.prefix_rfl, ht, hP⟩

theorem not_under_concat (ht : root.at? p = some t) (hp : ¬ root.Under P p) (hP : ¬ P t i) :
    ¬ root.Under P (p ++ [i]) :=
  fun h => ((under_concat ht).1 h).elim hp hP

theorem not_under_nil (root : SyntaxTree) (P : SyntaxTree → Nat → Prop) : ¬ root.Under P [] := by
  rintro ⟨q, i, t, hq, -⟩
  simp at hq

theorem Under.below {q : List Nat} (h : root.Under P q) (hq : q <+: p) : root.Under P p := by
  obtain ⟨r, i, t, hr, ht⟩ := h
  exact ⟨r, i, t, hr.trans hq, ht⟩

theorem read_concat (ht : root.at? p = some t) :
    root.Read (p ++ [i]) ↔ root.Read p ∧ t.goesInto i = true := by
  simp only [Read, InPreamble, InHeader, under_concat ht, goesInto_iff]
  push Not
  tauto

theorem read_nil (root : SyntaxTree) : root.Read [] :=
  ⟨root.not_under_nil _, root.not_under_nil _⟩

theorem Read.above {q : List Nat} (h : root.Read p) (hq : q <+: p) : root.Read q :=
  ⟨fun hpreamble => h.1 (hpreamble.below hq), fun hheader => h.2 (hheader.below hq)⟩

theorem inits_concat (p : List Nat) (i : Nat) : (p ++ [i]).inits = p.inits ++ [p ++ [i]] := by
  rw [List.inits_append]
  rfl

theorem inits_eq_dropLast (p : List Nat) : p.inits = p.inits.dropLast ++ [p] := by
  cases p using List.reverseRecOn with
  | nil => rfl
  | append_singleton p i => rw [inits_concat, List.dropLast_concat]

theorem owner?_concat (ht : root.at? p = some t) :
    root.owner? (p ++ [i]) = (t.opening? p).or (root.owner? p) := by
  have hself : ([p].filterMap fun q => (root.at? q).bind fun t => t.opening? q).getLast? =
      t.opening? p := by
    cases h : t.opening? p <;> simp [ht, h]
  rw [owner?, inits_concat, List.dropLast_concat, inits_eq_dropLast, List.filterMap_append,
    List.getLast?_append, hself, owner?]

end

end SyntaxTree

/-- A node that the reading comes to, with its position, the scope and the types it stands in. -/
structure Visit where
  position : List Nat
  owner : Option Opening
  enclosing : List String
  node : SyntaxTree

namespace Visit

def ofRoot (root : SyntaxTree) : Visit := ⟨[], none, [], root⟩

def child (c : FileContext) (v : Visit) (e : SyntaxTree × Nat) : Visit :=
  ⟨v.position ++ [e.2], (v.node.opening? v.position).or v.owner, v.node.innerTypes c v.enclosing,
    e.1⟩

section
variable (c : FileContext)

/-- The visits from one on, as far as so many levels deep. -/
def below : Nat → Visit → List Visit
  | 0, _ => []
  | depth + 1, v => v :: v.node.entered.flatMap fun e => below depth (v.child c e)

end

/-- A visit that says truly where in a tree it is. -/
structure Faithful (root : SyntaxTree) (v : Visit) : Prop where
  node : root.at? v.position = some v.node
  read : root.Read v.position
  owner : v.owner = root.owner? v.position

section
variable {c : FileContext} {root : SyntaxTree} {v w : Visit} {depth : Nat}

theorem faithful_ofRoot (root : SyntaxTree) : (ofRoot root).Faithful root where
  node := rfl
  read := root.read_nil
  owner := rfl

theorem Faithful.child (h : v.Faithful root) {e : SyntaxTree × Nat} (he : e ∈ v.node.entered) :
    (v.child c e).Faithful root := by
  obtain ⟨hchild, hinto⟩ := SyntaxTree.mem_entered_iff.1 he
  refine ⟨?_, (SyntaxTree.read_concat h.node).2 ⟨h.read, hinto⟩, ?_⟩
  · show root.at? (v.position ++ [e.2]) = some e.1
    rw [SyntaxTree.at?_concat, h.node]
    exact hchild
  · show (v.node.opening? v.position).or v.owner = root.owner? (v.position ++ [e.2])
    rw [SyntaxTree.owner?_concat h.node, h.owner]

theorem faithful_of_below (hv : v.Faithful root) (hw : w ∈ below c depth v) : w.Faithful root := by
  induction depth generalizing v with
  | zero => cases hw
  | succ depth ih =>
    rcases List.mem_cons.1 hw with rfl | hw
    · exact hv
    · obtain ⟨e, he, hw⟩ := List.mem_flatMap.1 hw
      exact ih (hv.child he) hw

theorem exists_below (hv : v.Faithful root) {q : List Nat} {t : SyntaxTree} (hq : q.length < depth)
    (ht : root.at? (v.position ++ q) = some t) (hread : root.Read (v.position ++ q)) :
    ∃ w ∈ below c depth v, w.position = v.position ++ q := by
  induction depth generalizing v q with
  | zero => cases hq
  | succ depth ih =>
    cases q with
    | nil => exact ⟨v, List.mem_cons_self, (List.append_nil _).symm⟩
    | cons i q =>
      rw [List.append_cons] at ht hread ⊢
      have hinto : v.node.goesInto i = true :=
        ((SyntaxTree.read_concat hv.node).1 (hread.above (List.prefix_append _ _))).2
      obtain ⟨u, hu, -⟩ : ∃ u, v.node.children[i]? = some u ∧ u.at? q = some t := by
        rw [SyntaxTree.at?_append, SyntaxTree.at?_concat, hv.node] at ht
        exact Option.bind_eq_some_iff.1 ht
      have he : (u, i) ∈ v.node.entered := SyntaxTree.mem_entered_iff.2 ⟨hu, hinto⟩
      obtain ⟨w, hw, hposition⟩ := ih (hv.child (c := c) he) (Nat.lt_of_succ_lt_succ hq) ht hread
      exact ⟨w, List.mem_cons_of_mem _ (List.mem_flatMap.2 ⟨_, he, hw⟩), hposition⟩

theorem position_of_below (hw : w ∈ below c depth v) :
    ∃ q, w.position = v.position ++ q ∧ q.length < depth := by
  induction depth generalizing v with
  | zero => cases hw
  | succ depth ih =>
    rcases List.mem_cons.1 hw with rfl | hw
    · exact ⟨[], (List.append_nil _).symm, Nat.succ_pos _⟩
    · obtain ⟨e, -, hw⟩ := List.mem_flatMap.1 hw
      obtain ⟨q, hq, hlength⟩ := ih hw
      exact ⟨e.2 :: q, by rw [hq, List.append_cons]; rfl, Nat.succ_lt_succ hlength⟩

theorem lt_append_cons (p : List Nat) (i : Nat) (q : List Nat) : p < p ++ i :: q := by
  have h : p ++ [] < p ++ i :: q := List.append_left_lt (List.nil_lt_cons i q)
  rwa [List.append_nil] at h

theorem pairwise_below (c : FileContext) (depth : Nat) (v : Visit) :
    (below c depth v).Pairwise fun w w' => w.position < w'.position := by
  induction depth generalizing v with
  | zero => exact List.Pairwise.nil
  | succ depth ih =>
    have hnumbers : v.node.entered.Pairwise fun e e' => e.2 < e'.2 :=
      (SyntaxTree.pairwise_zipIdx v.node.children).filter _
    refine List.pairwise_cons.2 ⟨fun w hw => ?_, List.pairwise_flatMap.2 ⟨fun e _ => ih _, ?_⟩⟩
    · obtain ⟨e, -, hw⟩ := List.mem_flatMap.1 hw
      obtain ⟨q, hq, -⟩ := position_of_below hw
      rw [hq]
      show v.position < v.position ++ [e.2] ++ q
      rw [← List.append_cons]
      exact lt_append_cons _ _ _
    · refine hnumbers.imp fun {e e'} hlt w hw w' hw' => ?_
      obtain ⟨q, hq, -⟩ := position_of_below hw
      obtain ⟨q', hq', -⟩ := position_of_below hw'
      rw [hq, hq']
      show v.position ++ [e.2] ++ q < v.position ++ [e'.2] ++ q'
      rw [← List.append_cons, ← List.append_cons]
      exact List.append_left_lt (List.cons_lt_cons_iff.2 (.inl hlt))

end

end Visit

/-- The visits of a tree whose nodes more than `maxDepth` levels below the root are left out. -/
def SyntaxTree.visits (c : FileContext) (maxDepth : Nat) (root : SyntaxTree) : List Visit :=
  Visit.below c (maxDepth + 1) (.ofRoot root)

theorem SyntaxTree.faithful_of_visits {c : FileContext} {maxDepth : Nat} {root : SyntaxTree}
    {v : Visit} (h : v ∈ root.visits c maxDepth) : v.Faithful root :=
  Visit.faithful_of_below (Visit.faithful_ofRoot root) h

/-- A position is visited if a node is there that is read and not too deep. -/
theorem SyntaxTree.mem_visits_iff {c : FileContext} {maxDepth : Nat} {root : SyntaxTree}
    {p : List Nat} : (∃ v ∈ root.visits c maxDepth, v.position = p) ↔
      p.length ≤ maxDepth ∧ root.Read p ∧ ∃ t, root.at? p = some t := by
  constructor
  · rintro ⟨v, hv, rfl⟩
    have hfaithful := faithful_of_visits hv
    obtain ⟨q, hq, hlength⟩ := Visit.position_of_below hv
    have hdepth : v.position.length ≤ maxDepth := by
      rw [hq]
      exact Nat.le_of_lt_succ hlength
    exact ⟨hdepth, hfaithful.read, v.node, hfaithful.node⟩
  · rintro ⟨hlength, hread, t, ht⟩
    obtain ⟨v, hv, hposition⟩ := Visit.exists_below (c := c) (Visit.faithful_ofRoot root)
      (Nat.lt_succ_of_le hlength) ht hread
    exact ⟨v, hv, hposition⟩

/-- Some positions are those of all nodes with a property, in preorder. -/
structure SyntaxTree.InPreorder (root : SyntaxTree) (P : List Nat → SyntaxTree → Prop)
    (found : List (List Nat)) : Prop where
  sorted : found.Pairwise (· < ·)
  mem_iff : ∀ p, p ∈ found ↔ ∃ t, root.at? p = some t ∧ P p t

theorem SyntaxTree.inPreorder_visits (c : FileContext) (maxDepth : Nat) (root : SyntaxTree)
    (P : SyntaxTree → Prop) [DecidablePred P] :
    root.InPreorder (fun p t => p.length ≤ maxDepth ∧ root.Read p ∧ P t)
      (((root.visits c maxDepth).filter fun v => P v.node).map Visit.position) where
  sorted := List.pairwise_map.2 ((Visit.pairwise_below c (maxDepth + 1) _).filter _)
  mem_iff p := by
    simp only [List.mem_map, List.mem_filter, decide_eq_true_eq]
    constructor
    · rintro ⟨v, ⟨hv, hP⟩, rfl⟩
      obtain ⟨hlength, hread, -⟩ := mem_visits_iff.1 ⟨v, hv, rfl⟩
      exact ⟨v.node, (faithful_of_visits hv).node, hlength, hread, hP⟩
    · rintro ⟨t, ht, hlength, hread, hP⟩
      obtain ⟨v, hv, rfl⟩ := (mem_visits_iff (c := c)).2 ⟨hlength, hread, t, ht⟩
      have hnode : v.node = t := Option.some.inj ((faithful_of_visits hv).node.symm.trans ht)
      exact ⟨v, ⟨hv, hnode ▸ hP⟩, rfl⟩

theorem forall₂_filter_flatMap {α β : Type} {P : α → Prop} [DecidablePred P] {f : α → List β}
    {R : α → β → Prop} {l : List α} (hone : ∀ a ∈ l, P a → ∃ b, f a = [b] ∧ R a b)
    (hnone : ∀ a ∈ l, ¬ P a → f a = []) : List.Forall₂ R (l.filter P) (l.flatMap f) := by
  induction l with
  | nil => exact .nil
  | cons a l ih =>
    obtain ⟨ha, hl⟩ := List.forall_mem_cons.1 hone
    obtain ⟨ha', hl'⟩ := List.forall_mem_cons.1 hnone
    rw [List.flatMap_cons, List.filter_cons]
    by_cases hP : P a
    · obtain ⟨b, hb, hR⟩ := ha hP
      rw [if_pos (decide_eq_true hP), hb]
      exact .cons hR (ih hl hl')
    · rw [if_neg (by simpa using hP), ha' hP]
      exact ih hl hl'

end PackageModularity

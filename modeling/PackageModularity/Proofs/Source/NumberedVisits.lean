import Mathlib.Data.List.Nodup
import PackageModularity.Proofs.Source.Visits

/-!
The scopes of a file are numbered in the order in which the visited nodes open them, and each node
gives its events in the scope it stands in, whatever its children open in between.
-/
namespace PackageModularity

def Opening.position : Opening → List Nat
  | .header p | .body p | .method p => p

/-- The number of a scope, if scopes are opened in this order. Scope zero is that of the file. -/
def scopeNumber (opened : List Opening) : Option Opening → Nat
  | none => 0
  | some o => opened.idxOf o + 1

theorem scopeNumber_after {opened before : List Opening} {o : Opening} (hnodup : opened.Nodup)
    (h : before ++ [o] <+: opened) : scopeNumber opened (some o) = before.length + 1 := by
  obtain ⟨after, rfl⟩ := h
  rw [List.append_assoc] at hnodup ⊢
  have ho : o ∉ before := fun hmem =>
    List.disjoint_of_nodup_append hnodup hmem List.mem_cons_self
  rw [scopeNumber, List.idxOf_append_of_notMem ho, List.singleton_append, List.idxOf_cons_self]

namespace Event

def isScoping : Event → Bool
  | .enter _ | .leave => true
  | _ => false

/-- Some events open these scopes after some others and are numbered like this, whatever follows. -/
def NumberedAs (opened before : List Opening) (owner : Option Opening) (es : List Event)
    (new : List Opening) (out : List (Nat × Event)) : Prop :=
  ∀ within rest, within.headD 0 = scopeNumber opened owner →
    numbered (before.length + 1) within (es ++ rest) =
      out ++ numbered ((before ++ new).length + 1) within rest

section
variable {opened before new new' : List Opening} {owner : Option Opening} {o : Opening}
  {es es' : List Event} {out out' : List (Nat × Event)}

theorem numberedAs_nil : NumberedAs opened before owner [] [] [] := by
  intro within rest _
  rw [List.append_nil]
  rfl

theorem NumberedAs.append (h : NumberedAs opened before owner es new out)
    (h' : NumberedAs opened (before ++ new) owner es' new' out') :
    NumberedAs opened before owner (es ++ es') (new ++ new') (out ++ out') := by
  intro within rest hwithin
  rw [List.append_assoc, h within _ hwithin, h' within rest hwithin, List.append_assoc,
    List.append_assoc]

theorem NumberedAs.after_unscoped (hes : ∀ e ∈ es, e.isScoping = false)
    (h : NumberedAs opened before owner es' new out) :
    NumberedAs opened before owner (es ++ es') new
      (es.map (scopeNumber opened owner, ·) ++ out) := by
  intro within rest hwithin
  induction es with
  | nil => exact h within rest hwithin
  | cons e es ih =>
    obtain ⟨he, hes⟩ := List.forall_mem_cons.1 hes
    rw [List.map_cons, List.cons_append, List.cons_append, List.cons_append, List.cons_append,
      ← ih hes, ← hwithin]
    cases e with
    | enter enclosing => cases he
    | leave => cases he
    | _ => rfl

theorem NumberedAs.scoped (ho : scopeNumber opened (some o) = before.length + 1)
    (h : NumberedAs opened (before ++ [o]) (some o) es new out) (enclosing : List String) :
    NumberedAs opened before owner ([.enter enclosing] ++ es ++ [.leave]) ([o] ++ new)
      ([(scopeNumber opened (some o), .enter enclosing)] ++ out) := by
  intro within rest _
  have hinside := h ((before.length + 1) :: within) (.leave :: rest) ho.symm
  rw [List.length_append] at hinside
  rw [List.append_assoc, List.append_assoc, List.singleton_append, numbered, ho]
  show _ :: numbered (before.length + [o].length + 1) _ (es ++ .leave :: rest) = _
  rw [hinside, numbered, List.append_assoc before]
  rfl

theorem numberedAs_flatMap {α : Type} {l : List α} {f : α → List Event} {g : α → List Opening}
    {k : α → List (Nat × Event)}
    (h : ∀ a ∈ l, ∀ before, before ++ g a <+: opened →
      NumberedAs opened before owner (f a) (g a) (k a))
    (hopened : before ++ l.flatMap g <+: opened) :
    NumberedAs opened before owner (l.flatMap f) (l.flatMap g) (l.flatMap k) := by
  induction l generalizing before with
  | nil => exact numberedAs_nil
  | cons a l ih =>
    obtain ⟨ha, hl⟩ := List.forall_mem_cons.1 h
    rw [List.flatMap_cons, ← List.append_assoc] at hopened
    have hfirst := ha before ((List.prefix_append _ _).trans hopened)
    simpa only [List.flatMap_cons] using hfirst.append (ih hl hopened)

end

end Event

def SyntaxTree.opens (t : SyntaxTree) (position : List Nat) : List Opening :=
  match t.shape with
  | .namedType _ => [.header position, .body position]
  | .method => [.method position]
  | .preamble | .plain => []

namespace Visit

def openings (v : Visit) : List Opening := v.node.opens v.position

def entering (c : FileContext) (v : Visit) : List (Opening × List String) :=
  match v.node.shape with
  | .namedType name =>
    [(.header v.position, v.enclosing),
      (.body v.position, SyntaxTree.qualified c v.enclosing name :: v.enclosing)]
  | .method => [(.method v.position, v.enclosing)]
  | .preamble | .plain => []

def numbered (c : FileContext) (maxDepth : Nat) (opened : List Opening) (v : Visit) :
    List (Nat × Event) :=
  match v.node.shape with
  | .preamble => []
  | .namedType name =>
    let q := SyntaxTree.qualified c v.enclosing name
    let header := scopeNumber opened (some (.header v.position))
    [(header, .enter v.enclosing)] ++
      v.node.supertypeNames.map (fun s => (header, .mention (.supertype s))) ++
      [(scopeNumber opened v.owner, .define (v.node.declaration name q v.enclosing)),
        (scopeNumber opened (some (.body v.position)), .enter (q :: v.enclosing))]
  | .method => [(scopeNumber opened (some (.method v.position)), .enter v.enclosing)]
  | .plain =>
    (v.node.localEvents ++
      (v.node.mention? (maxDepth - v.position.length)).toList.map Event.mention).map
        (scopeNumber opened v.owner, ·)

section
open SyntaxTree
variable {c : FileContext} {maxDepth depth : Nat} {opened before : List Opening} {v : Visit}

theorem map_fst_entering (c : FileContext) (v : Visit) :
    (v.entering c).map Prod.fst = v.openings := by
  rw [entering, openings, opens]
  cases v.node.shape <;> rfl

theorem filterMap_entered?_numbered :
    (v.numbered c maxDepth opened).filterMap Event.entered? =
      (v.entering c).map fun e => (scopeNumber opened (some e.1), e.2) := by
  rw [numbered, entering]
  cases v.node.shape with
  | preamble => rfl
  | namedType name =>
    simp [List.filterMap_cons, List.filterMap_map, Function.comp_def, Event.entered?]
  | method => rfl
  | plain => simp [List.filterMap_map, Function.comp_def, Event.entered?, localEvents]

theorem flatMap_below_succ {β : Type} (f : Visit → List β) :
    (below c (depth + 1) v).flatMap f =
      f v ++ v.node.entered.flatMap fun e => (below c depth (v.child c e)).flatMap f := by
  rw [below, List.flatMap_cons, List.flatMap_assoc]

theorem numberedAs_step {inner : List Opening} {out : List (Nat × Event)} (hnodup : opened.Nodup)
    (hdepth : v.position.length + depth = maxDepth)
    (hopened : before ++ (v.openings ++ inner) <+: opened)
    (hinner : Event.NumberedAs opened (before ++ v.openings)
      ((v.node.opening? v.position).or v.owner)
      (v.node.enteredEvents c (v.node.innerTypes c v.enclosing) depth) inner out) :
    Event.NumberedAs opened before v.owner (v.node.events c v.enclosing (depth + 1))
      (v.openings ++ inner) (v.numbered c maxDepth opened ++ out) := by
  rw [events_succ]
  cases hshape : v.node.shape with
  | preamble =>
    simp only [openings, opens, opening?, hshape, Option.none_or, List.append_nil] at hinner
    simpa only [openings, opens, numbered, startEvents, endEvents, hshape,
      List.nil_append, List.append_nil] using hinner
  | plain =>
    have hlevels : maxDepth - v.position.length = depth := by omega
    have hstart : ∀ e ∈ v.node.localEvents ++ (v.node.mention? depth).toList.map Event.mention,
        e.isScoping = false := by
      simp only [localEvents, List.mem_append, List.mem_map]
      rintro e (⟨l, -, rfl⟩ | ⟨m, -, rfl⟩) <;> rfl
    simp only [openings, opens, opening?, hshape, Option.none_or] at hinner
    simpa only [openings, opens, numbered, startEvents, endEvents, hshape, hlevels,
      List.nil_append, List.append_nil] using hinner.after_unscoped hstart
  | method =>
    simp only [openings, opens, opening?, hshape, Option.some_or] at hinner hopened
    rw [← List.append_assoc] at hopened
    have hnumber := scopeNumber_after hnodup ((List.prefix_append _ _).trans hopened)
    simpa only [openings, opens, numbered, startEvents, endEvents, hshape] using
      hinner.scoped hnumber v.enclosing
  | namedType name =>
    -- the header is a scope, then the type is defined, then the body is a scope with what is inside
    simp only [openings, opens, opening?, hshape, Option.some_or] at hinner hopened
    rw [← List.append_assoc, List.append_cons] at hopened
    rw [List.append_cons] at hinner
    have hbody : before ++ [.header v.position] ++ [.body v.position] <+: opened :=
      (List.prefix_append _ _).trans hopened
    have hheader := scopeNumber_after hnodup ((List.prefix_append _ _).trans hbody)
    have hsupers : ∀ e ∈ v.node.supertypeNames.map fun s => Event.mention (.supertype s),
        e.isScoping = false := by
      simp only [List.mem_map]
      rintro e ⟨s, -, rfl⟩
      rfl
    have hdefine : ∀ e ∈ [Event.define (v.node.declaration name
        (qualified c v.enclosing name) v.enclosing)], e.isScoping = false := by
      rintro e he
      rw [List.mem_singleton.1 he]
      rfl
    have hfirst : Event.NumberedAs opened before v.owner _ _ _ :=
      (Event.numberedAs_nil.after_unscoped hsupers).scoped hheader v.enclosing
    have hlast : Event.NumberedAs opened (before ++ [.header v.position]) v.owner _ _ _ :=
      hinner.scoped (scopeNumber_after hnodup hbody) (v.node.innerTypes c v.enclosing)
    have hall := hfirst.append (hlast.after_unscoped hdefine)
    simpa [openings, opens, numbered, startEvents, endEvents, hshape,
      innerTypes, Function.comp_def] using hall

theorem numberedAs_events (hnodup : opened.Nodup)
    (hdepth : v.position.length + depth = maxDepth + 1)
    (hopened : before ++ (below c depth v).flatMap openings <+: opened) :
    Event.NumberedAs opened before v.owner (v.node.events c v.enclosing depth)
      ((below c depth v).flatMap openings)
      ((below c depth v).flatMap (numbered c maxDepth opened)) := by
  induction depth generalizing v before with
  | zero =>
    rw [events.eq_def]
    exact Event.numberedAs_nil
  | succ depth ih =>
    rw [flatMap_below_succ] at hopened
    rw [flatMap_below_succ, flatMap_below_succ]
    refine numberedAs_step hnodup (by omega) hopened ?_
    rw [← List.append_assoc] at hopened
    refine Event.numberedAs_flatMap (fun e _ before hbefore => ?_) hopened
    refine ih (v := v.child c e) ?_ hbefore
    show (v.position ++ [e.2]).length + depth = maxDepth + 1
    rw [List.length_append, List.length_singleton]
    omega

theorem position_of_openings {o : Opening} (h : o ∈ v.openings) : o.position = v.position := by
  rw [openings, opens] at h
  cases hshape : v.node.shape with
  | namedType name =>
    simp only [hshape, List.mem_cons, List.not_mem_nil, or_false] at h
    rcases h with rfl | rfl <;> rfl
  | method =>
    simp only [hshape, List.mem_singleton] at h
    rw [h]
    rfl
  | preamble => simp [hshape] at h
  | plain => simp [hshape] at h

theorem nodup_openings (c : FileContext) (depth : Nat) (v : Visit) :
    ((below c depth v).flatMap openings).Nodup := by
  refine List.nodup_flatMap.2 ⟨fun w _ => ?_, ?_⟩
  · rw [openings, opens]
    cases w.node.shape <;> simp
  · refine (pairwise_below c depth v).imp fun {w w'} hlt o ho ho' => ?_
    rw [← position_of_openings ho, ← position_of_openings ho'] at hlt
    exact lt_irrefl _ hlt

end

end Visit

namespace SyntaxTree

def openings (c : FileContext) (maxDepth : Nat) (root : SyntaxTree) : List Opening :=
  (root.visits c maxDepth).flatMap Visit.openings

theorem numbered_events (c : FileContext) (maxDepth : Nat) (root : SyntaxTree) :
    Event.numbered 1 [] (root.events c [] (maxDepth + 1)) =
      (root.visits c maxDepth).flatMap (Visit.numbered c maxDepth (root.openings c maxDepth)) := by
  have hall : Event.NumberedAs (root.openings c maxDepth) [] none (root.events c [] (maxDepth + 1))
      (root.openings c maxDepth) _ :=
    Visit.numberedAs_events (v := .ofRoot root) (Visit.nodup_openings c (maxDepth + 1) _)
      (Nat.zero_add _) List.prefix_rfl
  have hout := hall [] [] rfl
  rw [List.append_nil] at hout
  exact hout.trans (List.append_nil _)

theorem entered_events (c : FileContext) (maxDepth : Nat) (root : SyntaxTree) :
    (Event.numbered 1 [] (root.events c [] (maxDepth + 1))).filterMap Event.entered? =
      ((root.visits c maxDepth).flatMap (Visit.entering c)).map fun e =>
        (scopeNumber (root.openings c maxDepth) (some e.1), e.2) := by
  rw [numbered_events, List.filterMap_flatMap, List.map_flatMap]
  exact List.flatMap_congr fun v _ => Visit.filterMap_entered?_numbered

end SyntaxTree

end PackageModularity

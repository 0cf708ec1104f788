import Mathlib.Data.List.Basic
import PackageModularity.Proofs.Text.DottedName
import PackageModularity.Source.Reading

/-!
The types of a file as they are listed: each stands in the file itself or in a type listed before
it, and is named after that. So every name between the package of a file and one of its types is
that of a type of the file.
-/
namespace PackageModularity

namespace SyntaxTree

mutual

def everywhere (p : SyntaxTree → Bool) : SyntaxTree → Bool
  | .node kind role text children => p (.node kind role text children) && everywhereIn p children

def everywhereIn (p : SyntaxTree → Bool) : List SyntaxTree → Bool
  | [] => true
  | t :: r => everywhere p t && everywhereIn p r

end

/-- A type is declared under an identifier, which has no dot. -/
def plainlyNamed (t : SyntaxTree) : Bool :=
  t.kind ≠ .typeDeclaration || (t.childText? .name).all fun name => !name.toList.contains '.'

theorem everywhereIn_iff {p : SyntaxTree → Bool} {ts : List SyntaxTree} :
    everywhereIn p ts = true ↔ ∀ t ∈ ts, everywhere p t = true := by
  induction ts with
  | nil => simp [everywhereIn]
  | cons t ts ih => rw [everywhereIn, Bool.and_eq_true, ih, List.forall_mem_cons]

theorem eventsOfAll_eq (c : FileContext) (enclosing : List String) (depth : Nat)
    (ts : List SyntaxTree) :
    eventsOfAll c enclosing depth ts = ts.flatMap (events c enclosing depth) := by
  induction ts with
  | nil => rfl
  | cons t ts ih => rw [eventsOfAll, ih, List.flatMap_cons]

theorem eventsOfBody_eq (c : FileContext) (enclosing : List String) (depth : Nat)
    (ts : List SyntaxTree) :
    eventsOfBody c enclosing depth ts =
      ((playing? .body ts).map (events c enclosing depth)).getD [] := by
  induction ts with
  | nil => rfl
  | cons t ts ih =>
    by_cases h : t.role = .body
    · simp [eventsOfBody, playing?, h]
    · rw [eventsOfBody, if_neg h, ih, playing?, playing?, List.find?_cons_of_neg (by simpa using h)]

end SyntaxTree

namespace Event

def defined? : Event → Option TypeDecl
  | .define d => some d
  | _ => none

theorem filterMap_define?_numbered (next : Nat) (within : List Nat) (es : List Event) :
    (numbered next within es).filterMap define? = es.filterMap defined? := by
  induction es generalizing next within with
  | nil => rfl
  | cons e es ih =>
    cases e <;> simp [numbered, List.filterMap_cons, define?, defined?, ih]

end Event

/-- Some types are directly around a place if there are none or one of those listed is the
innermost, inside its own. -/
def StandsIn (listed : List TypeDecl) (enclosing : List String) : Prop :=
  enclosing = [] ∨ ∃ outer ∈ listed, enclosing = outer.qualifiedName :: outer.enclosing

/-- Types listed after some others, each in a place that is known by then and named after it. -/
inductive Nested (c : FileContext) : List TypeDecl → List TypeDecl → Prop where
  | nil {listed : List TypeDecl} : Nested c listed []
  | cons {listed ds : List TypeDecl} {d : TypeDecl} {name : String} (hdot : '.' ∉ name.toList)
      (hplace : StandsIn listed d.enclosing)
      (hname : d.qualifiedName = SyntaxTree.qualified c d.enclosing name)
      (hds : Nested c (d :: listed) ds) : Nested c listed (d :: ds)

section
variable {c : FileContext} {listed listed' ds : List TypeDecl}

theorem StandsIn.mono {enclosing : List String} (h : StandsIn listed enclosing)
    (hsub : listed ⊆ listed') : StandsIn listed' enclosing :=
  h.imp_right fun ⟨outer, hmem, he⟩ => ⟨outer, hsub hmem, he⟩

theorem Nested.mono (h : Nested c listed ds) (hsub : listed ⊆ listed') : Nested c listed' ds := by
  induction h generalizing listed' with
  | nil => exact .nil
  | @cons _ _ d _ hdot hplace hname _ ih =>
    exact .cons hdot (hplace.mono hsub) hname (ih (List.cons_subset_cons d hsub))

theorem Nested.append {es : List TypeDecl} (hd : Nested c listed ds) (he : Nested c listed es) :
    Nested c listed (ds ++ es) := by
  induction hd with
  | nil => exact he
  | @cons _ _ d _ hdot hplace hname _ ih =>
    exact .cons hdot hplace hname (ih (he.mono (List.subset_cons_self d _)))

theorem Nested.flatMap {α : Type} {f : α → List TypeDecl} {l : List α}
    (h : ∀ a ∈ l, Nested c listed (f a)) : Nested c listed (l.flatMap f) := by
  induction l with
  | nil => exact .nil
  | cons a l ih =>
    obtain ⟨ha, hl⟩ := List.forall_mem_cons.1 h
    rw [List.flatMap_cons]
    exact ha.append (ih hl)

end

namespace SyntaxTree

/-- The types that a tree defines inside some enclosing types, as far as so many levels deep. -/
def definedTypes (c : FileContext) (enclosing : List String) (depth : Nat) (t : SyntaxTree) :
    List TypeDecl := (t.events c enclosing depth).filterMap Event.defined?

theorem definedTypes_children (c : FileContext) (enclosing : List String) (depth : Nat)
    (ts : List SyntaxTree) : (eventsOfAll c enclosing depth ts).filterMap Event.defined? =
      ts.flatMap (definedTypes c enclosing depth) := by
  rw [eventsOfAll_eq, List.filterMap_flatMap]
  rfl

theorem definedTypes_body (c : FileContext) (enclosing : List String) (depth : Nat)
    (ts : List SyntaxTree) : (eventsOfBody c enclosing depth ts).filterMap Event.defined? =
      ((playing? .body ts).map (definedTypes c enclosing depth)).getD [] := by
  rw [eventsOfBody_eq]
  cases playing? .body ts <;> rfl

theorem definedTypes_succ (c : FileContext) (enclosing : List String) (depth : Nat)
    (t : SyntaxTree) :
    t.definedTypes c enclosing (depth + 1) = [] ∨
    t.definedTypes c enclosing (depth + 1) =
      t.children.flatMap (definedTypes c enclosing depth) ∨
    ∃ name, t.kind = .typeDeclaration ∧ t.childText? .name = some name ∧
      t.definedTypes c enclosing (depth + 1) =
        t.declaration name (qualified c enclosing name) enclosing ::
          ((t.child? .body).map
            (definedTypes c (qualified c enclosing name :: enclosing) depth)).getD [] := by
  have hmentions : ∀ ms : List Mention, (ms.map Event.mention).filterMap Event.defined? = [] := by
    intro ms
    simp [List.filterMap_map, Event.defined?, Function.comp_def]
  have hlocals : t.localEvents.filterMap Event.defined? = [] := by
    simp [localEvents, List.filterMap_map, Event.defined?, Function.comp_def]
  have hsupers : (t.supertypeNames.map fun s => Event.mention (.supertype s)).filterMap
      Event.defined? = [] := by
    simp [List.filterMap_map, Event.defined?, Function.comp_def]
  have hscoped : ([Event.enter enclosing] ++ eventsOfAll c enclosing depth t.children ++
      [Event.leave]).filterMap Event.defined? =
        t.children.flatMap (definedTypes c enclosing depth) := by
    rw [List.filterMap_append, List.filterMap_append, definedTypes_children]
    simp [Event.defined?, List.filterMap_cons]
  obtain ⟨kind, role, text, nodes⟩ := t
  rw [definedTypes, events.eq_def]
  dsimp only
  split
  · exact .inl rfl
  · exact .inl rfl
  · split
    · exact .inr (.inl (definedTypes_children c enclosing depth nodes))
    · rename_i name hname
      refine .inr (.inr ⟨name, rfl, hname, ?_⟩)
      simp only [List.filterMap_append, hsupers, definedTypes_body]
      simp [Event.defined?, List.filterMap_cons, child?, children]
  · exact .inr (.inl hscoped)
  · exact .inr (.inl hscoped)
  · refine .inr (.inl ?_)
    simp only [List.filterMap_append, definedTypes_children, hmentions, hlocals, List.nil_append]
    rfl

theorem nested_definedTypes (c : FileContext) {depth : Nat} {t : SyntaxTree}
    {enclosing : List String} {listed : List TypeDecl}
    (ht : t.everywhere plainlyNamed = true) (hplace : StandsIn listed enclosing) :
    Nested c listed (t.definedTypes c enclosing depth) := by
  induction depth generalizing t enclosing listed with
  | zero =>
    cases t
    exact .nil
  | succ depth ih =>
    obtain ⟨hplain, hchildren⟩ : plainlyNamed t = true ∧ ∀ u ∈ t.children,
        u.everywhere plainlyNamed = true := by
      obtain ⟨kind, role, text, nodes⟩ := t
      rwa [everywhere, Bool.and_eq_true, everywhereIn_iff] at ht
    rcases t.definedTypes_succ c enclosing depth with h | h | ⟨name, hkind, hname, h⟩
    · rw [h]
      exact .nil
    · rw [h]
      exact Nested.flatMap fun u hu => ih (hchildren u hu) hplace
    · have hdot : '.' ∉ name.toList := by simpa [plainlyNamed, hkind, hname] using hplain
      rw [h]
      refine .cons hdot hplace rfl ?_
      cases hbody : t.child? .body with
      | none => exact .nil
      | some body =>
        -- inside the body the type just listed is the innermost one
        exact ih (hchildren body (List.mem_of_find?_eq_some hbody))
          (.inr ⟨_, List.mem_cons_self, rfl⟩)

end SyntaxTree

/-- A unit read off a tree whose types have identifiers as names. -/
def SourceUnit.IsRead (u : SourceUnit) : Prop :=
  ∃ maxDepth path root, SyntaxTree.everywhere SyntaxTree.plainlyNamed root = true ∧
    u = SourceUnit.ofTree maxDepth path root

theorem SourceUnit.IsRead.nested {u : SourceUnit} (h : u.IsRead) : Nested u.context [] u.types := by
  obtain ⟨maxDepth, path, root, hroot, rfl⟩ := h
  show Nested _ [] ((Event.numbered 1 [] _).filterMap Event.define?)
  rw [Event.filterMap_define?_numbered]
  exact SyntaxTree.nested_definedTypes _ hroot (.inl rfl)

def FileContext.packageSegments (c : FileContext) : List String :=
  if c.packageName = "" then [] else Name.segments c.packageName

theorem FileContext.segments_qualify (c : FileContext) (name : String) :
    Name.segments (c.qualify name) = c.packageSegments ++ Name.segments name := by
  by_cases h : c.packageName = ""
  · simp [qualify, packageSegments, h]
  · rw [qualify, if_neg h, packageSegments, if_neg h, Name.segments_inside]

/-- A type's name goes on from its package by at least one segment, and each name on the way is that
of a type. -/
def Rooted (c : FileContext) (ds : List TypeDecl) (d : TypeDecl) : Prop :=
  ∃ names, Name.segments d.qualifiedName = c.packageSegments ++ names ∧ names ≠ [] ∧
    ∀ front, front ≠ [] → front <+: names →
      ∃ e ∈ ds, Name.segments e.qualifiedName = c.packageSegments ++ front

theorem Rooted.mono {c : FileContext} {ds es : List TypeDecl} {d : TypeDecl} (h : Rooted c ds d)
    (hsub : ds ⊆ es) : Rooted c es d := by
  obtain ⟨names, hnames, hne, hfront⟩ := h
  refine ⟨names, hnames, hne, fun front hf hpre => ?_⟩
  obtain ⟨e, he, hsegments⟩ := hfront front hf hpre
  exact ⟨e, hsub he, hsegments⟩

theorem rooted_concat {c : FileContext} {listed : List TypeDecl} {d : TypeDecl}
    {names : List String} {name : String}
    (hsegments : Name.segments d.qualifiedName = c.packageSegments ++ (names ++ [name]))
    (hnames : ∀ front, front ≠ [] → front <+: names →
      ∃ e ∈ listed, Name.segments e.qualifiedName = c.packageSegments ++ front) :
    Rooted c (d :: listed) d := by
  refine ⟨names ++ [name], hsegments, by simp, fun front hf hpre => ?_⟩
  rcases List.prefix_concat_iff.1 hpre with rfl | hpre
  · exact ⟨d, List.mem_cons_self, hsegments⟩
  · obtain ⟨e, hmem, hes⟩ := hnames front hf hpre
    exact ⟨e, List.mem_cons_of_mem d hmem, hes⟩

theorem rooted_of_standsIn {c : FileContext} {listed : List TypeDecl} {d : TypeDecl} {name : String}
    (hlisted : ∀ e ∈ listed, Rooted c listed e) (hdot : '.' ∉ name.toList)
    (hplace : StandsIn listed d.enclosing)
    (hname : d.qualifiedName = SyntaxTree.qualified c d.enclosing name) :
    Rooted c (d :: listed) d := by
  rcases hplace with he | ⟨outer, houter, he⟩
  · rw [he, SyntaxTree.qualified] at hname
    have hsegments : Name.segments d.qualifiedName = c.packageSegments ++ ([] ++ [name]) := by
      rw [hname, c.segments_qualify, Name.segments_of_no_dot hdot, List.nil_append]
    exact rooted_concat hsegments fun front hf hpre => absurd (List.prefix_nil.1 hpre) hf
  · rw [he, SyntaxTree.qualified] at hname
    obtain ⟨names, hnames, -, hfront⟩ := hlisted outer houter
    have hsegments : Name.segments d.qualifiedName = c.packageSegments ++ (names ++ [name]) := by
      rw [hname, Name.segments_inside, hnames, Name.segments_of_no_dot hdot, List.append_assoc]
    exact rooted_concat hsegments hfront

theorem Nested.rooted {c : FileContext} {listed ds : List TypeDecl} (h : Nested c listed ds)
    (hlisted : ∀ e ∈ listed, Rooted c listed e) : ∀ d ∈ ds, Rooted c (listed ++ ds) d := by
  induction h with
  | nil => simp
  | @cons listed ds d name hdot hplace hname hds ih =>
    have hd : Rooted c (d :: listed) d := rooted_of_standsIn hlisted hdot hplace hname
    have hall : ∀ e ∈ d :: listed, Rooted c (d :: listed) e :=
      List.forall_mem_cons.2 ⟨hd, fun e he => (hlisted e he).mono (List.subset_cons_self d _)⟩
    have hsub : d :: listed ++ ds ⊆ listed ++ d :: ds := by
      intro e he
      simp only [List.mem_append, List.mem_cons] at he ⊢
      tauto
    refine List.forall_mem_cons.2 ⟨hd.mono fun e he => hsub (List.mem_append_left ds he), ?_⟩
    exact fun e he => (ih hall e he).mono hsub

theorem SourceUnit.IsRead.rooted {u : SourceUnit} (h : u.IsRead) {d : TypeDecl} (hd : d ∈ u.types) :
    Rooted u.context u.types d :=
  h.nested.rooted (by simp) d hd

end PackageModularity

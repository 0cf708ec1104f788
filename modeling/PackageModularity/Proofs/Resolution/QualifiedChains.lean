import PackageModularity.Proofs.Resolution.HierarchyWalk
import PackageModularity.Proofs.Resolution.LocalChains
import PackageModularity.Proofs.Text.DottedName

/-!
A receiver that spells the qualified name of a type. The chain is read from its first name on, and
each part of it is tried as a field of the part before it. Where no part is one, each part is what the
table holds under its text, a package being nothing, so the whole chain is the type.
-/
namespace PackageModularity

theorem Name.chain_cons (x f : String) (fields : List String) :
    chain x (f :: fields) = inside x (joinWith "." (f :: fields)) := by
  induction fields using List.reverseRecOn with
  | nil => rfl
  | append_singleton fields g ih =>
    rw [← List.cons_append, chain_concat, ih, joinWith_append (List.cons_ne_nil _ _)
      (List.cons_ne_nil _ _)]
    simp only [inside, joinWith, String.append_assoc]

theorem Name.chain_of_segments {q x : String} {fields : List String}
    (h : segments q = x :: fields) : chain x fields = q := by
  have hq : joinWith "." (x :: fields) = q := by rw [← h, FileName.joinWith_segments]
  cases fields with
  | nil => exact hq
  | cons f fields =>
    rw [chain_cons, ← hq]
    rfl

namespace TypeTable

variable {t : TypeTable} {c : FileContext} {scope : Scope} {x : String} {fields : List String}

theorem writtenType?_chain (hdot : '.' ∉ x.toList) (hx : t.writtenType? c scope x = none)
    (hne : fields ≠ []) :
    t.writtenType? c scope (Name.chain x fields) =
      (t.get? (Name.chain x fields)).map .known := by
  obtain ⟨f, fields, rfl⟩ := List.exists_cons_of_ne_nil hne
  have hsimple : t.simpleType? x c scope.enclosing = none := by
    rwa [writtenType?, type?, Name.splitFirst?, Name.segments_of_no_dot hdot] at hx
  rw [Name.chain_cons, writtenType?, type?, Name.splitFirst?_inside hdot]
  simp only [hsimple]

structure NoVariable (t : TypeTable) (scope : Scope) (x : String) : Prop where
  notLocal : scope.locals.get? x = none
  notField : ∀ outer ∈ t.enclosingSymbols scope, t.findField x outer = none

theorem receiverType?_noVariable (h : t.NoVariable scope x) :
    t.receiverType? c scope (Receiver.chain x []) = t.writtenType? c scope x := by
  have hfield : (t.enclosingSymbols scope).findSome? (t.findField x) = none :=
    List.findSome?_eq_none_iff.2 h.notField
  show t.receiverType? c scope (.name x) = _
  rw [receiverType?, receiverTypes, Option.head?_toList, nameType?, h.notLocal, hfield]

/-- No part of a chain is a field of the part before it, that taken as a type of the table. -/
def PartsApart (t : TypeTable) (x : String) (fields : List String) : Prop :=
  ∀ front f, front ++ [f] <+: fields → ∀ o, t.get? (Name.chain x front) = some o →
    t.findField f o = none

theorem PartsApart.of_prefix {front : List String} (h : t.PartsApart x fields)
    (hfront : front <+: fields) : t.PartsApart x front :=
  fun before f hbefore => h before f (hbefore.trans hfront)

theorem receiverType?_chain (hdot : '.' ∉ x.toList) (hvar : t.NoVariable scope x)
    (hx : t.writtenType? c scope x = none) (hapart : t.PartsApart x fields) (hne : fields ≠ []) :
    t.receiverType? c scope (Receiver.chain x fields) =
      (t.get? (Name.chain x fields)).map .known := by
  induction fields using List.reverseRecOn with
  | nil => exact absurd rfl hne
  | append_singleton fields f ih =>
    have hfield : t.fieldOf? (t.receiverType? c scope (Receiver.chain x fields)) f = none := by
      by_cases hfirst : fields = []
      · rw [hfirst, receiverType?_noVariable hvar, hx]
        rfl
      · rw [ih (hapart.of_prefix (List.prefix_append _ _)) hfirst]
        cases ho : t.get? (Name.chain x fields) with
        | none => rfl
        | some o => exact hapart fields f List.prefix_rfl o ho
    rw [receiverType?_chain_concat, hfield]
    exact writtenType?_chain hdot hx hne

theorem receiverTypes_chain (fields : List String) :
    t.receiverTypes c scope (Receiver.chain x fields) =
      (t.receiverType? c scope (Receiver.chain x fields)).toList := by
  cases fields using List.reverseRecOn with
  | nil =>
    show t.receiverTypes c scope (.name x) = (t.receiverType? c scope (.name x)).toList
    rw [receiverType?, receiverTypes, Option.head?_toList]
  | append_singleton fields f =>
    rw [Receiver.chain_concat, receiverType?, receiverTypes, Option.head?_toList]

theorem chain_ne_super (fields : List String) : Receiver.chain x fields ≠ .super := by
  cases fields using List.reverseRecOn with
  | nil => exact Receiver.noConfusion
  | append_singleton fields f =>
    rw [Receiver.chain_concat]
    exact Receiver.noConfusion

theorem map_fst_findMember {α : Type} (probe : TypeDecl → Option α) (s : TypeSymbol) :
    (t.findMember probe s).map Prod.fst = (t.hierarchy s).find? fun u => (probe u.decl).isSome := by
  rw [findMember]
  induction t.hierarchy s with
  | nil => rfl
  | cons u l ih =>
    rw [List.findSome?_cons, List.find?_cons]
    cases hu : probe u.decl with
    | none => exact ih
    | some a => rfl

/-- The declaration in the nearest type above a type, that one included, that answers. -/
def nearestDeclaration? (t : TypeTable) (probe : TypeDecl → Bool) (s : TypeSymbol) :
    Option Declaration :=
  (((t.breadthFirst s).take 64).find? fun u => probe u.decl).map fun u => ⟨u.package, .source⟩

theorem map_findMember (hk : t.Keyed) {s : TypeSymbol} (hs : t.Declares s) {α : Type}
    (probe : TypeDecl → Option α) :
    (t.findMember probe s).map (fun p => (TypeRef.known p.1).declaration) =
      t.nearestDeclaration? (fun d => (probe d).isSome) s := by
  have hfirst := map_fst_findMember (t := t) probe s
  rw [hierarchy_eq hk hs] at hfirst
  have hsplit : (fun p : TypeSymbol × α => (TypeRef.known p.1).declaration) =
      (fun u => (⟨u.package, .source⟩ : Declaration)) ∘ Prod.fst := rfl
  rw [nearestDeclaration?, hsplit, ← Option.map_map, hfirst]
  rfl

section
variable {s : TypeSymbol} {r : Receiver}

theorem callTarget?_of_known (hr : t.receiverTypes c scope r = [.known s]) (hsuper : r ≠ .super)
    (name : String) :
    t.callTarget? c scope (some r) name =
      (t.findMethod name s).map fun p => (TypeRef.known p.1).declaration := by
  have howner : t.methodIn? ((t.receiverTypes c scope r).filterMap TypeRef.known?) name =
      t.findMethod name s := by
    rw [hr, methodIn?]
    show [s].findSome? (t.findMethod name) = _
    rw [List.findSome?_cons, List.findSome?_nil]
    cases t.findMethod name s <;> rfl
  have hlibrary : (t.receiverType? c scope r).bind libraryOf? = none := by
    rw [receiverType?, hr]
    rfl
  simp only [callTarget?, howner]
  cases t.findMethod name s with
  | some p => rfl
  | none =>
    cases r with
    | super => exact absurd rfl hsuper
    | _ => exact hlibrary

theorem fieldTarget?_of_known (name : String) :
    t.fieldTarget? name [.known s] =
      (t.findField name s).map fun p => (TypeRef.known p.1).declaration := by
  rw [fieldTarget?]
  cases t.findField name s <;> rfl

end

/-- A chain that spells a type's qualified name is of that type, if its first name means nothing by
itself and no part of it is a field. A member taken from it is the one of the nearest type above. -/
theorem resolve_qualified_chain {us : List SourceUnit} {q : String} {s : TypeSymbol}
    (hq : (ofUnits us).get? q = some s) (hsegments : Name.segments q = x :: fields)
    (hne : fields ≠ []) (hvar : (ofUnits us).NoVariable scope x)
    (hx : (ofUnits us).writtenType? c scope x = none)
    (hapart : (ofUnits us).PartsApart x fields) :
    (ofUnits us).receiverType? c scope (Receiver.chain x fields) = some (.known s) ∧
    s.qualifiedName = q ∧
    ∀ u n, u.context = c → u.scopes[n]? = some scope → ∀ name,
      (ofUnits us).resolve u ⟨.call (some (Receiver.chain x fields)) name, n⟩ =
        (ofUnits us).nearestDeclaration? (fun d => (d.methods.get? name).isSome) s ∧
      (ofUnits us).resolve u ⟨.field (Receiver.chain x fields) name, n⟩ =
        (ofUnits us).nearestDeclaration? (fun d => (d.fields.get? name).isSome) s := by
  have hk := keyed_ofUnits us
  have hdot : '.' ∉ x.toList := Name.no_dot_of_mem_segments (hsegments ▸ List.mem_cons_self)
  have htype : (ofUnits us).receiverType? c scope (Receiver.chain x fields) = some (.known s) := by
    rw [receiverType?_chain hdot hvar hx hapart hne, Name.chain_of_segments hsegments, hq]
    rfl
  have htypes : (ofUnits us).receiverTypes c scope (Receiver.chain x fields) = [.known s] := by
    rw [receiverTypes_chain, htype]
    rfl
  refine ⟨htype, hk q s hq, fun u n hu hscope name => ⟨?_, ?_⟩⟩
  · rw [resolve, hscope, hu]
    show (ofUnits us).callTarget? c scope (some (Receiver.chain x fields)) name = _
    rw [callTarget?_of_known htypes (chain_ne_super fields), findMethod,
      map_findMember hk ⟨q, hq⟩]
  · rw [resolve, hscope, hu]
    show (ofUnits us).fieldTarget? name ((ofUnits us).receiverTypes c scope _) = _
    rw [htypes, fieldTarget?_of_known, findField, map_findMember hk ⟨q, hq⟩]

/-- `package base; class Base { static Base log() {..} }` -/
def baseFile : SourceUnit where
  path := Path.ofText "base/Base.java"
  context := ⟨some "base", Dict.empty, []⟩
  types := [⟨"base.Base", [], [], Dict.empty, Dict.ofList [("log", some "Base")]⟩]
  scopes := [Scope.empty]
  references := []

/-- `package lib; class Crate { int size; static class Lid extends base.Base {} }` -/
def crateFile : SourceUnit where
  path := Path.ofText "lib/Crate.java"
  context := ⟨some "lib", Dict.empty, []⟩
  types := [⟨"lib.Crate", [], [], Dict.ofList [("size", "int")], Dict.empty⟩,
    ⟨"lib.Crate.Lid", ["lib.Crate"], ["base.Base"], Dict.empty, Dict.empty⟩]
  scopes := [Scope.empty]
  references := []

def openScope : Scope := ⟨["app.Open"], Dict.ofList [("crate", "Crate")]⟩

def openFile : SourceUnit where
  path := Path.ofText "app/Open.java"
  context := ⟨some "app", Dict.empty, []⟩
  types := [⟨"app.Open", [], [], Dict.ofList [("count", "int")], Dict.empty⟩]
  scopes := [Scope.empty, openScope]
  references := [⟨.call (some (Receiver.chain "lib" ["Crate", "Lid"])) "log", 1⟩,
    ⟨.field (Receiver.chain "lib" ["Crate", "Lid"]) "size", 1⟩]

/-- The method is inherited from another package. The field is one of the outer type only. -/
theorem resolve_qualified_chain_lid :
    let t := ofUnits [baseFile, crateFile, openFile]
    (∃ s, t.get? "lib.Crate.Lid" = some s ∧
      t.receiverType? openFile.context openScope (Receiver.chain "lib" ["Crate", "Lid"]) =
        some (.known s)) ∧
    openFile.references.map (t.resolve openFile) = [some ⟨"base", .source⟩, none] := by
  intro t
  have hq : t.get? "lib.Crate.Lid" = some ⟨⟨"lib.Crate.Lid", ["lib.Crate"], ["base.Base"],
    Dict.empty, Dict.empty⟩, crateFile.context⟩ := rfl
  have hvar : t.NoVariable openScope "lib" := by
    refine ⟨by decide +kernel, fun outer houter => ?_⟩
    have hsymbols : t.enclosingSymbols openScope = [⟨⟨"app.Open", [], [],
      Dict.ofList [("count", "int")], Dict.empty⟩, openFile.context⟩] := rfl
    rw [hsymbols, List.mem_singleton] at houter
    rw [houter]
    rfl
  have hapart : t.PartsApart "lib" ["Crate", "Lid"] := by
    intro front f hfront o ho
    obtain ⟨back, hback⟩ := hfront
    match front, hback with
    | [], _ => cases ho
    | [a], hback =>
      obtain ⟨rfl, rfl, -⟩ : a = "Crate" ∧ f = "Lid" ∧ back = [] := by simpa using hback
      cases ho
      rfl
    | _ :: _ :: front, hback => simp at hback
  obtain ⟨htype, -, hmember⟩ := resolve_qualified_chain (c := openFile.context) hq
    (by decide +kernel) (by decide) hvar rfl hapart
  obtain ⟨hcall, -⟩ := hmember openFile 1 rfl rfl "log"
  obtain ⟨-, hfield⟩ := hmember openFile 1 rfl rfl "size"
  refine ⟨⟨_, hq, htype⟩, ?_⟩
  show [t.resolve openFile _, t.resolve openFile _] = _
  rw [hcall, hfield]
  decide +kernel

end TypeTable

end PackageModularity

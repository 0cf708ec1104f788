import Mathlib.Data.Finset.Max
import PackageModularity.Proofs.Source.DepthBound
import PackageModularity.Proofs.Source.HeaderOccurrences
import PackageModularity.Proofs.Source.LocalOwners
import PackageModularity.Resolution.ReferenceTarget

/-!
The locals in sight of a reference. They are those of its owner, so what one method declares is out
of sight in every other. That goes for the methods of a class inside it too, where the language has
in sight what is captured.
-/
namespace PackageModularity

theorem TypeTable.nameType?_of_no_local (table : TypeTable) (c : FileContext) {s : Scope}
    {name : String} (h : s.locals.get? name = none) :
    table.nameType? c s name = table.nameType? c ⟨s.enclosing, Dict.empty⟩ name := by
  rw [nameType?, nameType?, h, Dict.get?_empty]
  rfl

/-- A local of a method that nothing on the way down to a reference declares again is in sight of a call
or a member access with no other method and no body of a named type in between, as in a lambda. It is
out of sight of everything in a method inside the method. -/
theorem SourceUnit.local_out_of_sight {maxDepth : Nat} {root t : SyntaxTree} {m p : List Nat}
    {r : Reference} {name type : String} (path : Path) (hm : root.isMethodAt m = true)
    (hmp : m <+: p) (hp : root.Reaches maxDepth p t) (hr : r ∈ root.referencesOf maxDepth p)
    (hlocal : root.LastLocal maxDepth m name type)
    (hkept : ∀ o, m <+: o → o <+: p → o ≠ m → ∀ q type', ¬ root.DeclaresLocal maxDepth o q name type') :
    ∃ s, (ofTree maxDepth path root).scopes[r.scope]? = some s ∧
      ((∀ n, m <+: n → n <+: p → root.holdsLocals n = true → n = m) → r.mention.kind ≠ .inherits →
        s.locals.get? name = some type) ∧
      ∀ n, root.isMethodAt n = true → m <+: n → n ≠ m → n <+: p →
        s.locals.get? name = none ∧ ∀ table : TypeTable,
          table.receiverTypes (ofTree maxDepth path root).context s (.name name) =
            table.receiverTypes (ofTree maxDepth path root).context ⟨s.enclosing, Dict.empty⟩
              (.name name) := by
  obtain ⟨s, hs, -, hlocals⟩ := exists_scope_of_reference path hp hr
  have hholds : root.holdsLocals m = true := SyntaxTree.holdsLocals_of_isMethodAt hm
  refine ⟨s, hs, fun hnearest hkind => ?_, fun n hn hmn hne hnp => ?_⟩
  · have howner : root.localOwner p = m := SyntaxTree.localOwner_eq_of_nearest hholds hmp hnearest
    exact (hlocals name type).2 ⟨hkind, howner ▸ hlocal⟩
  · have howner : root.localOwner p ≠ m :=
      SyntaxTree.localOwner_ne_of_between (SyntaxTree.holdsLocals_of_isMethodAt hn) hmn hne hnp
    have hnone : s.locals.get? name = none := by
      refine Option.eq_none_iff_forall_ne_some.2 fun type' h => ?_
      obtain ⟨-, q, hq, -⟩ := (hlocals name type').1 h
      exact hkept _ (SyntaxTree.around_localOwner hholds hmp) (root.localOwner_around p) howner q type'
        hq
    refine ⟨hnone, fun table => ?_⟩
    rw [TypeTable.receiverTypes, TypeTable.receiverTypes, table.nameType?_of_no_local _ hnone]

namespace SyntaxTree

/-- `class A { void run(H h) { h.g(new X() { void go() { h.f(); } }); } }` -/
def capturingCall : SyntaxTree :=
  let callOn (name : String) (more : List SyntaxTree) : SyntaxTree :=
    .node .methodInvocation .none none ([.node .identifier .object (some "h") [],
      .node .identifier .name (some name) []] ++ more)
  let method (name : String) (parameters : List SyntaxTree) (call : SyntaxTree) : SyntaxTree :=
    .node .methodDeclaration .none none
      [.node .voidType .type (some "void") [], .node .identifier .name (some name) [],
        .node .other .parameters none parameters,
        .node .other .body none [.node .other .none none [call]]]
  let parameter : SyntaxTree := .node .formalParameter .none (some "H h")
    [.node .typeIdentifier .type (some "H") [], .node .identifier .name (some "h") []]
  let create : SyntaxTree := .node .objectCreation .none none
    [.node .typeIdentifier .type (some "X") [], .node .other .none (some "()") [],
      .node .other .none none [method "go" [] (callOn "f" [])]]
  .node .other .none none
    [.node .typeDeclaration .none none [.node .identifier .name (some "A") [],
      .node .other .body none
        [method "run" [parameter] (callOn "g" [.node .other .none none [create]])]]]

def runPlace : List Nat := [0, 1, 0]
def outerCall : List Nat := runPlace ++ [3, 0, 0]
def goPlace : List Nat := outerCall ++ [2, 0, 2, 0]
def innerCall : List Nat := goPlace ++ [3, 0, 0]

theorem within_capturingCall : capturingCall.Within 15 := by decide

theorem reaches_capturingCall {p : List Nat}
    (h : p ∈ (capturingCall.visits default 512).map Visit.position) :
    ∃ t, capturingCall.Reaches 512 p t := by
  obtain ⟨v, hv, rfl⟩ := List.mem_map.1 h
  exact ⟨v.node, reaches_of_visits hv⟩

theorem reaches_calls : (∃ t, capturingCall.Reaches 512 outerCall t) ∧
    ∃ t, capturingCall.Reaches 512 innerCall t :=
  ⟨reaches_capturingCall (by decide), reaches_capturingCall (by decide)⟩

theorem place_of_declaring {q : List Nat} {t : SyntaxTree} (ht : capturingCall.at? q = some t)
    (h : t.isDeclaring = true) : q = runPlace ++ [2, 0] := by
  have hall : ∀ q ∈ positions 15 capturingCall, (capturingCall.at? q).any isDeclaring = true →
      q = runPlace ++ [2, 0] := by decide
  refine hall q (mem_positions_iff.2 ⟨within_capturingCall q t ht, t, ht⟩) ?_
  rw [ht]
  exact h

theorem lastLocal_run : capturingCall.LastLocal 512 runPlace "h" "H" := by
  obtain ⟨t, ht⟩ := reaches_capturingCall (p := runPlace ++ [2, 0]) (by decide)
  have hnode : capturingCall.at? (runPlace ++ [2, 0]) = some (.node .formalParameter .none
      (some "H h") [.node .typeIdentifier .type (some "H") [],
        .node .identifier .name (some "h") []]) := rfl
  obtain rfl := Option.some.inj (hnode.symm.trans ht.1)
  refine ⟨_, ⟨_, ht, by decide, rfl, by decide, List.mem_singleton.2 rfl⟩, ?_⟩
  rintro q type ⟨u, hu, -, hdeclaring, -⟩
  exact (place_of_declaring hu.1 hdeclaring).le

theorem kept_in_capturingCall {o : List Nat} (ho : o ≠ runPlace) (q : List Nat) (type : String) :
    ¬ capturingCall.DeclaresLocal 512 o q "h" type := by
  rintro ⟨u, hu, howner, hdeclaring, -⟩
  rw [place_of_declaring hu.1 hdeclaring] at howner
  exact ho (howner.symm.trans (by decide))

end SyntaxTree

open SyntaxTree in
/-- The call of `g` sees the parameter of `run`, the call of `f` in the method of the anonymous class does
not. -/
theorem SourceUnit.local_out_of_sight_capturingCall :
    (∃ s, (ofTree 512 (.ofText "A.java") capturingCall).scopes[3]? = some s ∧
      s.locals.get? "h" = some "H") ∧
    ∃ s, (ofTree 512 (.ofText "A.java") capturingCall).scopes[4]? = some s ∧
      s.locals.get? "h" = none := by
  obtain ⟨⟨t, ht⟩, u, hu⟩ := reaches_calls
  have hrun : capturingCall.isMethodAt runPlace = true := rfl
  have hgo : capturingCall.isMethodAt goPlace = true := rfl
  have houter : (⟨.call (some (.name "h")) "g", 3⟩ : Reference) ∈
      capturingCall.referencesOf 512 outerCall := by decide
  have hinner : (⟨.call (some (.name "h")) "f", 4⟩ : Reference) ∈
      capturingCall.referencesOf 512 innerCall := by decide
  have hkept : ∀ o, o ≠ runPlace → ∀ q type, ¬ capturingCall.DeclaresLocal 512 o q "h" type :=
    fun o ho => kept_in_capturingCall ho
  obtain ⟨s, hs, hseen, -⟩ := local_out_of_sight (.ofText "A.java") hrun (by decide) ht houter
    lastLocal_run fun o _ _ => hkept o
  obtain ⟨s', hs', -, hunseen⟩ := local_out_of_sight (.ofText "A.java") hrun (by decide) hu hinner
    lastLocal_run fun o _ _ => hkept o
  have hnearest : ∀ n ∈ outerCall.inits, runPlace <+: n → capturingCall.holdsLocals n = true →
      n = runPlace := by decide
  exact ⟨⟨s, hs, hseen (fun n hn hp => hnearest n ((List.mem_inits _ _).2 hp) hn) (by decide)⟩,
    s', hs', (hunseen goPlace hgo (by decide) (by decide) (by decide)).1⟩

open SyntaxTree in
/-- The language has the parameter of `run` in sight of the call of `f` too, but the scope of `go`
starts without it. -/
theorem SourceUnit.captured_parameter_out_of_sight :
    ¬ ∀ (maxDepth : Nat) (path : Path) (root t : SyntaxTree) (m n p q : List Nat) (r : Reference)
        (name type : String), root.Within (maxDepth + 1) → root.isMethodAt m = true →
      root.isMethodAt n = true → m <+: n → n ≠ m → n <+: p → root.Reaches maxDepth p t →
      r ∈ root.referencesOf maxDepth p → q < n → root.DeclaresLocal maxDepth m q name type →
      (∀ o, m <+: o → o <+: p → o ≠ m → ∀ q' type', ¬ root.DeclaresLocal maxDepth o q' name type') →
        ∃ s, (ofTree maxDepth path root).scopes[r.scope]? = some s ∧
          s.locals.get? name = some type := by
  intro hcaptured
  obtain ⟨-, t, ht⟩ := reaches_calls
  obtain ⟨q, hq, -⟩ := lastLocal_run
  have hwithin : capturingCall.Within 513 :=
    fun p t hp => (within_capturingCall p t hp).trans (by decide)
  have hbefore : q < goPlace := by
    obtain ⟨u, hu, -, hdeclaring, -⟩ := hq
    rw [place_of_declaring hu.1 hdeclaring]
    decide
  obtain ⟨s, hs, hlocal⟩ := hcaptured 512 (.ofText "A.java") capturingCall t runPlace goPlace innerCall q
    ⟨.call (some (.name "h")) "f", 4⟩ "h" "H" hwithin rfl rfl (by decide) (by decide) (by decide) ht
    (by decide) hbefore hq fun o _ _ ho => kept_in_capturingCall ho
  have hnone : (ofTree 512 (.ofText "A.java") capturingCall).scopes[4]?.map (·.locals.get? "h") =
      some none := by decide
  rw [show (ofTree 512 (.ofText "A.java") capturingCall).scopes[4]? = some s from hs] at hnone
  cases hlocal.symm.trans (Option.some.inj hnone)

end PackageModularity

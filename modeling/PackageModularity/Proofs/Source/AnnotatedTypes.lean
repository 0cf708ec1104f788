import Mathlib.Tactic.Common
import PackageModularity.Proofs.Source.AddedComments
import PackageModularity.Proofs.Source.PairedBrackets

/-!
Annotations added to a written type. Where the name of a type is taken from a node below, or where they
stand between angle brackets, they are passed over. One in front of the last part of a qualified name is
text of the node that the name is taken from, and gets into the name.
-/
namespace PackageModularity

/-! ### Annotations in a text -/

/-- An annotation as it is written, with the white space around its parts. -/
structure IsAnnotation (text : List Char) : Prop where
  sign : text.head? = some '@'
  paired : Paired text

/-- The second text is the first one with annotations and white space put in, so many of the
annotations outside of all angle brackets. So many brackets are open before the texts. -/
inductive Annotates : Nat → Nat → List Char → List Char → Prop where
  | done {depth : Nat} : Annotates depth 0 [] []
  | opened {depth exposed : Nat} {r r' : List Char} (h : Annotates (depth + 1) exposed r r') :
      Annotates depth exposed ('<' :: r) ('<' :: r')
  | closed {depth exposed : Nat} {r r' : List Char} (h : Annotates (depth - 1) exposed r r') :
      Annotates depth exposed ('>' :: r) ('>' :: r')
  | plain {depth exposed : Nat} {c : Char} {r r' : List Char} (hopen : c ≠ '<') (hclose : c ≠ '>')
      (h : Annotates depth exposed r r') : Annotates depth exposed (c :: r) (c :: r')
  | blank {depth exposed : Nat} {c : Char} {r r' : List Char} (hc : isBlank c)
      (h : Annotates depth exposed r r') : Annotates depth exposed r (c :: r')
  | enclosed {depth exposed : Nat} {note r r' : List Char} (hnote : IsAnnotation note)
      (h : Annotates (depth + 1) exposed r r') : Annotates (depth + 1) exposed r (note ++ r')
  | exposed {exposed : Nat} {note r r' : List Char} (hnote : IsAnnotation note)
      (h : Annotates 0 exposed r r') : Annotates 0 (exposed + 1) r (note ++ r')

theorem IsAnnotation.one_le_count {note : List Char} (h : IsAnnotation note) :
    1 ≤ (dropArguments 0 note).count '@' := by
  obtain ⟨r, rfl⟩ : ∃ r, note = '@' :: r := List.head?_eq_some_iff.1 h.sign
  rw [dropArguments_plain (by decide) (by decide), if_neg (by decide), List.count_cons_self]
  exact Nat.le_add_left 1 _

namespace Annotates
variable {depth exposed : Nat} {r r' : List Char}

theorem refl (depth : Nat) (r : List Char) : Annotates depth 0 r r := by
  induction r generalizing depth with
  | nil => exact .done
  | cons c r ih =>
    by_cases hopen : c = '<'
    · exact hopen ▸ .opened (ih _)
    · by_cases hclose : c = '>'
      · exact hclose ▸ .closed (ih _)
      · exact .plain hopen hclose (ih depth)

theorem dropArguments_eq (h : Annotates depth exposed r r') (hnone : exposed = 0) :
    dropArguments depth r' = dropArguments depth r := by
  induction h with
  | done => rfl
  | opened _ ih => rw [dropArguments_open, dropArguments_open, ih hnone]
  | closed _ ih => rw [dropArguments_close, dropArguments_close, ih hnone]
  | plain hopen hclose _ ih =>
    rw [dropArguments_plain hopen hclose, dropArguments_plain hopen hclose, ih hnone]
  | blank hc _ ih => rw [dropArguments_blank hc, ih hnone]
  | enclosed hnote _ ih =>
    rw [hnote.paired.dropArguments_append, hnote.paired.dropArguments_succ, List.nil_append,
      ih hnone]
  | exposed => exact absurd hnone (Nat.succ_ne_zero _)

theorem count_le (h : Annotates depth exposed r r') :
    (dropArguments depth r).count '@' + exposed ≤ (dropArguments depth r').count '@' := by
  induction h with
  | done => exact Nat.le_refl _
  | opened _ ih => rwa [dropArguments_open, dropArguments_open]
  | closed _ ih => rwa [dropArguments_close, dropArguments_close]
  | plain hopen hclose _ ih =>
    rw [dropArguments_plain hopen hclose, dropArguments_plain hopen hclose]
    split
    · exact ih
    · rw [List.count_cons, List.count_cons]
      omega
  | blank hc _ ih => rwa [dropArguments_blank hc]
  | enclosed hnote _ ih =>
    rwa [hnote.paired.dropArguments_append, hnote.paired.dropArguments_succ, List.nil_append]
  | exposed hnote _ ih =>
    have hsign := hnote.one_le_count
    rw [hnote.paired.dropArguments_append, List.count_append]
    omega

theorem eraseType_eq_iff {text text' : String}
    (h : Annotates 0 exposed text.toList text'.toList) :
    eraseType text' = eraseType text ↔ exposed = 0 := by
  constructor
  · intro heq
    have hcount := h.count_le
    rw [← count_eraseType (by decide) (by decide) (by decide),
      ← count_eraseType (by decide) (by decide) (by decide), heq] at hcount
    omega
  · intro hnone
    rw [eraseType, eraseType, h.dropArguments_eq hnone]

-- A bracket without its other half ends the type arguments, or keeps them from ending.
example : eraseType "Outer<B>.Inner" = "Outer.Inner" ∧
    eraseType "Outer<@A(1 > 0) B>.Inner" = "Outer0)B.Inner" := by decide +kernel

end Annotates

/-! ### Annotations in a tree -/

namespace SyntaxTree

def IsSpelled (kind : NodeKind) : Prop :=
  kind ∉ [.voidType, .genericType, .arrayType, .annotatedType]

instance (kind : NodeKind) : Decidable (IsSpelled kind) := inferInstanceAs (Decidable (kind ∉ _))

/-- The second tree is that of the first type with annotations added: in the text of the node that
the name is taken from, below nodes that it is not taken from, among the annotations that stand before
a type already, or before a type without any. So many of them stand in that text outside of all angle
brackets. -/
inductive Annotated : Nat → SyntaxTree → SyntaxTree → Prop where
  | void {role role' : Role} {text text' : Option String} {below below' : List SyntaxTree} :
      Annotated 0 (.node .voidType role text below) (.node .voidType role' text' below')
  | spelled {exposed : Nat} {kind : NodeKind} {role role' : Role} {text text' : String}
      {below below' : List SyntaxTree} (hkind : IsSpelled kind)
      (h : Annotates 0 exposed text.toList text'.toList) :
      Annotated exposed (.node kind role (some text) below) (.node kind role' (some text') below')
  | generic {exposed : Nat} {role role' : Role} {text text' : Option String} {t t' : SyntaxTree}
      {arguments arguments' : List SyntaxTree} (h : Annotated exposed t t') :
      Annotated exposed (.node .genericType role text (t :: arguments))
        (.node .genericType role' text' (t' :: arguments'))
  | array {exposed : Nat} {role role' : Role} {text text' : Option String} {t t' : SyntaxTree}
      {dimensions dimensions' : List SyntaxTree} (helement : t.role = .element)
      (helement' : t'.role = .element) (h : Annotated exposed t t') :
      Annotated exposed (.node .arrayType role text (t :: dimensions))
        (.node .arrayType role' text' (t' :: dimensions'))
  | annotated {exposed : Nat} {role role' : Role} {text text' : Option String} {t t' : SyntaxTree}
      {notes notes' : List SyntaxTree} (hnotes : notes.Sublist notes') (h : Annotated exposed t t') :
      Annotated exposed (.node .annotatedType role text (notes ++ [t]))
        (.node .annotatedType role' text' (notes' ++ [t']))
  | before {exposed : Nat} {role : Role} {text : Option String} {t t' : SyntaxTree}
      {notes : List SyntaxTree} (hnotes : notes ≠ []) (h : Annotated exposed t t') :
      Annotated exposed t (.node .annotatedType role text (notes ++ [t']))

theorem typeName?_spelled {kind : NodeKind} (hkind : IsSpelled kind) (role : Role) (text : String)
    (below : List SyntaxTree) : typeName? (.node kind role (some text) below) =
      if eraseType text = "" then none else some (eraseType text) := by
  simp only [IsSpelled, List.mem_cons, List.not_mem_nil, or_false, not_or] at hkind
  obtain ⟨hvoid, hgeneric, harray, hannotated⟩ := hkind
  rw [typeName?.eq_def]
  dsimp only
  split
  · exact absurd rfl hvoid
  · exact absurd rfl hgeneric
  · exact absurd rfl harray
  · exact absurd rfl hannotated
  · rfl

theorem typeName?_generic (role : Role) (text : Option String) (t : SyntaxTree)
    (arguments : List SyntaxTree) :
    typeName? (.node .genericType role text (t :: arguments)) = typeName? t := rfl

theorem typeName?_array (role : Role) (text : Option String) {t : SyntaxTree}
    (helement : t.role = .element) (dimensions : List SyntaxTree) :
    typeName? (.node .arrayType role text (t :: dimensions)) = typeName? t := by
  rw [typeName?.eq_def]
  exact if_pos helement

theorem typeName?_annotated (role : Role) (text : Option String) (notes : List SyntaxTree)
    (t : SyntaxTree) :
    typeName? (.node .annotatedType role text (notes ++ [t])) = typeName? t := by
  rw [typeName?.eq_def]
  exact (lastTypeName?_eq _).trans (by rw [List.getLast?_concat]; rfl)

/-- Annotations leave the name of a type as it is exactly if none of them stands in the open in the
text that is the name of the type. -/
theorem typeName?_annotated_iff {exposed : Nat} {t t' : SyntaxTree} (h : Annotated exposed t t') :
    t'.typeName? = t.typeName? ↔ exposed = 0 := by
  induction h with
  | void => exact ⟨fun _ => rfl, fun _ => rfl⟩
  | spelled hkind h =>
    rw [typeName?_spelled hkind, typeName?_spelled hkind, ← h.eraseType_eq_iff]
    constructor
    · intro heq
      split at heq <;> split at heq <;> simp_all
    · intro heq
      rw [heq]
  | generic _ ih => rwa [typeName?_generic, typeName?_generic]
  | array helement helement' _ ih => rwa [typeName?_array _ _ helement, typeName?_array _ _ helement']
  | annotated _ _ ih => rwa [typeName?_annotated, typeName?_annotated]
  | before _ _ ih => rwa [typeName?_annotated]

def leaf (kind : NodeKind) (text : String) : SyntaxTree := .node kind .none (some text) []

/-- The tree of `Map<K>.Entry[]`. -/
def entryArray : SyntaxTree :=
  .node .arrayType .type (some "Map<K>.Entry[]")
    [.node .scopedTypeIdentifier .element (some "Map<K>.Entry")
      [.node .genericType .none (some "Map<K>")
        [leaf .typeIdentifier "Map", .node .other .none (some "<K>") [leaf .typeIdentifier "K"]],
      leaf .typeIdentifier "Entry"],
    leaf .other "[]"]

def annotatedEntryArray : SyntaxTree :=
  .node .annotatedType .type (some "@A Map<@B K>.Entry @C []")
    [leaf .other "@A",
    .node .arrayType .none (some "Map<@B K>.Entry @C []")
      [.node .scopedTypeIdentifier .element (some "Map<@B K>.Entry")
        [.node .genericType .none (some "Map<@B K>")
          [leaf .typeIdentifier "Map",
          .node .other .none (some "<@B K>")
            [.node .annotatedType .none (some "@B K") [leaf .other "@B", leaf .typeIdentifier "K"]]],
        leaf .typeIdentifier "Entry"],
      .node .other .none (some "@C []") [leaf .other "@C"]]]

theorem typeName?_annotatedEntryArray : annotatedEntryArray.typeName? = entryArray.typeName? := by
  have hnote : IsAnnotation ['@', 'B', ' '] := ⟨rfl, paired_of_not_mem (by decide) (by decide)⟩
  have htext : Annotates 0 0 "Map<K>.Entry".toList "Map<@B K>.Entry".toList :=
    .plain (by decide) (by decide) <| .plain (by decide) (by decide) <|
      .plain (by decide) (by decide) <| .opened <| .enclosed hnote (.refl 1 _)
  exact (typeName?_annotated_iff (.before (List.cons_ne_nil _ [])
    (.array rfl rfl (.spelled (by decide) htext)))).2 rfl

def qualifiedType : SyntaxTree :=
  .node .scopedTypeIdentifier .none (some "p.E") [leaf .typeIdentifier "p", leaf .typeIdentifier "E"]

def annotatedQualifiedType : SyntaxTree :=
  .node .scopedTypeIdentifier .none (some "p. @Z E")
    [leaf .typeIdentifier "p", .node .other .none (some "@Z") [leaf .identifier "Z"],
    leaf .typeIdentifier "E"]

/-- The annotation gets into the name. -/
theorem typeName?_annotatedQualifiedType : qualifiedType.Annotated 1 annotatedQualifiedType ∧
    qualifiedType.typeName? = some "p.E" ∧ annotatedQualifiedType.typeName? = some "p.@ZE" := by
  have hnote : IsAnnotation ['@', 'Z', ' '] := ⟨rfl, paired_of_not_mem (by decide) (by decide)⟩
  have htext : Annotates 0 1 "p.E".toList "p. @Z E".toList :=
    .plain (by decide) (by decide) <| .plain (by decide) (by decide) <|
      .blank (by decide) <| .exposed hnote (.refl 0 _)
  exact ⟨.spelled (by decide) htext, by decide +kernel, by decide +kernel⟩

end SyntaxTree

end PackageModularity

import PackageModularity.Text.Blank
import PackageModularity.Source.SyntaxTree

/-! The name of a written type: no type arguments, no array brackets, no annotations around it. -/
namespace PackageModularity

/-- Drops what stands in angle brackets, the brackets, and white space. -/
def dropArguments : Nat → List Char → List Char
  | _, [] => []
  | depth, c :: r =>
    if c = '<' then dropArguments (depth + 1) r
    else if c = '>' then dropArguments (depth - 1) r
    else if 0 < depth ∨ isBlank c then dropArguments depth r
    else c :: dropArguments depth r

def dropBrackets : List Char → List Char
  | '[' :: ']' :: r => dropBrackets r
  | c :: r => c :: dropBrackets r
  | [] => []

def dropEllipses : List Char → List Char
  | '.' :: '.' :: '.' :: r => dropEllipses r
  | c :: r => c :: dropEllipses r
  | [] => []

def eraseType (text : String) : String :=
  String.ofList (dropEllipses (dropBrackets (dropArguments 0 text.toList)))

namespace SyntaxTree

mutual

/-- The name of a type node. `void` has none. -/
def typeName? : SyntaxTree → Option String
  | .node kind _ text children =>
    match kind with
    | .voidType => none
    | .genericType => firstTypeName? children
    | .arrayType => elementTypeName? children
    | .annotatedType => lastTypeName? children
    | _ => text.bind fun t => if eraseType t = "" then none else some (eraseType t)

def firstTypeName? : List SyntaxTree → Option String
  | [] => none
  | t :: _ => typeName? t

def elementTypeName? : List SyntaxTree → Option String
  | [] => none
  | t :: r => if t.role = .element then typeName? t else elementTypeName? r

def lastTypeName? : List SyntaxTree → Option String
  | [] => none
  | [t] => typeName? t
  | _ :: t :: r => lastTypeName? (t :: r)

end

def childTypeName? (t : SyntaxTree) : Option String := (t.child? .type).bind typeName?

def isType (t : SyntaxTree) : Bool :=
  match t.kind with
  | .typeIdentifier | .scopedTypeIdentifier | .genericType | .annotatedType | .arrayType => true
  | _ => false

def clauseTypes (clause : SyntaxTree) : List SyntaxTree :=
  match clause.kind with
  | .superclass => clause.children
  | .interfaces => ((clause.children.find? (·.kind = .typeList)).map children).getD []
  | _ => []

def supertypeNames (t : SyntaxTree) : List String :=
  ((t.children.flatMap clauseTypes).filter isType).filterMap typeName?

end SyntaxTree

end PackageModularity

import PackageModularity.Text.Utf8

/-!
Syntax trees of Java files. A node has a kind, the role it plays for its parent, the text it spans
and its named children. A tree comes as a list of rows in preorder, each with the number of its parent
and the bytes of the file that it spans.
-/
namespace PackageModularity

inductive NodeKind where
  | packageDeclaration
  | importDeclaration
  | staticKeyword
  | asterisk
  | identifier
  | scopedIdentifier
  | typeDeclaration
  | methodDeclaration
  | constructorDeclaration
  | fieldDeclaration
  | annotationElement
  | enumConstant
  | enumBodyDeclarations
  | variableDeclarator
  | formalParameter
  | localVariableDeclaration
  | enhancedFor
  | resource
  | catchParameter
  | catchType
  | superclass
  | interfaces
  | typeList
  | voidType
  | typeIdentifier
  | scopedTypeIdentifier
  | genericType
  | arrayType
  | annotatedType
  | methodInvocation
  | fieldAccess
  | objectCreation
  | castExpression
  | parenthesized
  | thisKeyword
  | superKeyword
  | comment
  | other
  deriving DecidableEq, Repr

def NodeKind.ofName : String → NodeKind
  | "package_declaration" => .packageDeclaration
  | "import_declaration" => .importDeclaration
  | "static" => .staticKeyword
  | "asterisk" => .asterisk
  | "identifier" => .identifier
  | "scoped_identifier" => .scopedIdentifier
  | "class_declaration" | "interface_declaration" | "enum_declaration" | "record_declaration"
  | "annotation_type_declaration" => .typeDeclaration
  | "method_declaration" => .methodDeclaration
  | "constructor_declaration" | "compact_constructor_declaration" => .constructorDeclaration
  | "field_declaration" | "constant_declaration" => .fieldDeclaration
  | "annotation_type_element_declaration" => .annotationElement
  | "enum_constant" => .enumConstant
  | "enum_body_declarations" => .enumBodyDeclarations
  | "variable_declarator" => .variableDeclarator
  | "formal_parameter" => .formalParameter
  | "local_variable_declaration" => .localVariableDeclaration
  | "enhanced_for_statement" => .enhancedFor
  | "resource" => .resource
  | "catch_formal_parameter" => .catchParameter
  | "catch_type" => .catchType
  | "superclass" => .superclass
  | "super_interfaces" | "extends_interfaces" => .interfaces
  | "type_list" => .typeList
  | "void_type" => .voidType
  | "type_identifier" => .typeIdentifier
  | "scoped_type_identifier" => .scopedTypeIdentifier
  | "generic_type" => .genericType
  | "array_type" => .arrayType
  | "annotated_type" => .annotatedType
  | "method_invocation" => .methodInvocation
  | "field_access" => .fieldAccess
  | "object_creation_expression" => .objectCreation
  | "cast_expression" => .castExpression
  | "parenthesized_expression" => .parenthesized
  | "this" => .thisKeyword
  | "super" => .superKeyword
  | "line_comment" | "block_comment" => .comment
  | _ => .other

inductive Role where
  | none
  | name
  | object
  | field
  | type
  | element
  | body
  | parameters
  deriving DecidableEq, Repr

def Role.ofName : String → Role
  | "name" => .name
  | "object" => .object
  | "field" => .field
  | "type" => .type
  | "element" => .element
  | "body" => .body
  | "parameters" => .parameters
  | _ => .none

/-- The text is absent where the bytes that a node spans are no text. -/
inductive SyntaxTree where
  | node (kind : NodeKind) (role : Role) (text : Option String) (children : List SyntaxTree)

namespace SyntaxTree

instance : Inhabited SyntaxTree := ⟨.node .other .none none []⟩

def kind : SyntaxTree → NodeKind
  | .node k _ _ _ => k

def role : SyntaxTree → Role
  | .node _ r _ _ => r

def text : SyntaxTree → Option String
  | .node _ _ t _ => t

def children : SyntaxTree → List SyntaxTree
  | .node _ _ _ cs => cs

def playing? (r : Role) (nodes : List SyntaxTree) : Option SyntaxTree := nodes.find? (·.role = r)

def child? (t : SyntaxTree) (r : Role) : Option SyntaxTree := playing? r t.children

def childText? (t : SyntaxTree) (r : Role) : Option String := (t.child? r).bind text

structure Row where
  parent : Option Nat
  kind : String
  role : String
  start : Nat
  stop : Nat

def textBetween? (bytes : List UInt8) (start stop : Nat) : Option String :=
  Utf8.decode? ((bytes.drop start).take (stop - start))

/-- The trees that rows from number `i` on make up, those with their parent among the rows left
out, each with the number of its parent. -/
def forest (bytes : List UInt8) : Nat → List Row → List (Option Nat × SyntaxTree)
  | _, [] => []
  | i, row :: rest =>
    let later := forest bytes (i + 1) rest
    let (below, beside) := later.partition fun p => p.1 == some i
    let t := .node (.ofName row.kind) (.ofName row.role) (textBetween? bytes row.start row.stop)
      (below.map (·.2))
    (row.parent, t) :: beside

def ofRows? (text : String) (rows : List Row) : Option SyntaxTree :=
  (forest (Utf8.encode text) 0 rows).head?.map (·.2)

end SyntaxTree

end PackageModularity

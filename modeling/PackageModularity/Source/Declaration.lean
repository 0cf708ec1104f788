import PackageModularity.Source.Header

/-! The members of a declared type, the locals of a statement and the receivers of expressions. -/
namespace PackageModularity.SyntaxTree

def declaratorNames (t : SyntaxTree) : List String :=
  (t.children.filter (·.kind = .variableDeclarator)).filterMap (·.childText? .name)

def components (t : SyntaxTree) : List (String × String) :=
  let parameters := ((t.child? .parameters).map children).getD []
  (parameters.filter (·.kind = .formalParameter)).filterMap fun p => do
    some (← p.childText? .name, ← p.childTypeName?)

mutual

def memberFields (owner : String) : SyntaxTree → List (String × String)
  | .node kind role text children =>
    match kind with
    | .fieldDeclaration =>
      match childTypeName? (.node kind role text children) with
      | some type => (declaratorNames (.node kind role text children)).map (·, type)
      | none => []
    | .enumConstant => ((playing? .name children).bind SyntaxTree.text).toList.map (·, owner)
    | .enumBodyDeclarations => membersFields owner children
    | _ => []

def membersFields (owner : String) : List SyntaxTree → List (String × String)
  | [] => []
  | t :: r => memberFields owner t ++ membersFields owner r

end

mutual

def memberMethods : SyntaxTree → List (String × Option String)
  | .node kind role text children =>
    match kind with
    | .methodDeclaration | .annotationElement =>
      ((playing? .name children).bind SyntaxTree.text).toList.map
        (·, childTypeName? (.node kind role text children))
    | .enumBodyDeclarations => membersMethods children
    | _ => []

def membersMethods : List SyntaxTree → List (String × Option String)
  | [] => []
  | t :: r => memberMethods t ++ membersMethods r

end

/-- A named type declaration inside some enclosing types. A record's components are fields, each
with a method of its name. -/
def declaration (t : SyntaxTree) (name qualifiedName : String) (enclosing : List String) :
    TypeDecl :=
  let body := ((t.child? .body).map children).getD []
  ⟨qualifiedName, enclosing, t.supertypeNames,
    Dict.ofList (t.components ++ membersFields name body),
    Dict.ofList ((t.components.map fun p => (p.1, some p.2)) ++ membersMethods body)⟩

def localType? (t : SyntaxTree) : Option String :=
  match t.kind with
  | .catchParameter =>
    (t.children.find? (·.kind = .catchType)).bind fun c => firstTypeName? c.children
  | _ => t.childTypeName?

def localNames (t : SyntaxTree) : List String :=
  match t.kind with
  | .localVariableDeclaration => t.declaratorNames
  | _ => (t.childText? .name).toList

def locals (t : SyntaxTree) : List (String × String) :=
  match t.kind with
  | .formalParameter | .localVariableDeclaration | .enhancedFor | .resource | .catchParameter =>
    match t.localType? with
    | some type => t.localNames.map (·, type)
    | none => []
  | _ => []

mutual

/-- The receiver that an expression makes, read so many levels deep. -/
def receiver : Nat → SyntaxTree → Receiver
  | 0, _ => .unknown
  | depth + 1, .node kind role text children =>
    let self : SyntaxTree := .node kind role text children
    match kind with
    | .thisKeyword => .this
    | .superKeyword => .super
    | .identifier =>
      match text with
      | some s => .name s
      | none => .unknown
    | .fieldAccess =>
      match objectReceiver depth children, self.childText? .field with
      | some object, some f => .field object f
      | _, _ => .unknown
    | .methodInvocation =>
      match objectReceiver depth children, self.childText? .name with
      | some object, some m => .callOn object m
      | none, some m => .call m
      | _, none => .unknown
    | .objectCreation =>
      match self.childTypeName? with
      | some type => .create type
      | none => .unknown
    | .castExpression =>
      match self.childTypeName? with
      | some type => .cast type
      | none => .unknown
    | .parenthesized => firstReceiver depth children
    | _ => .unknown

def firstReceiver (depth : Nat) : List SyntaxTree → Receiver
  | [] => .unknown
  | t :: _ => receiver depth t

def objectReceiver (depth : Nat) : List SyntaxTree → Option Receiver
  | [] => none
  | t :: r => if t.role = .object then some (receiver depth t) else objectReceiver depth r

end

/-- The reference that a call or a field access is, its receiver read so many levels deep. -/
def mention? (depth : Nat) (t : SyntaxTree) : Option Mention :=
  match t.kind with
  | .methodInvocation =>
    (t.childText? .name).map fun m => .call (objectReceiver depth t.children) m
  | .fieldAccess => do
    let object ← objectReceiver depth t.children
    let f ← t.child? .field
    if f.kind = .identifier then some (.field object (← f.text)) else none
  | _ => none

end PackageModularity.SyntaxTree

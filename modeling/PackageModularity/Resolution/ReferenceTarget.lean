import PackageModularity.Resolution.Hierarchy

/-! What a reference points at: the static types of receivers, then the members found in them. -/
namespace PackageModularity.TypeTable

variable (t : TypeTable) (c : FileContext) (scope : Scope)

def currentType? : Option TypeSymbol := scope.enclosing.head?.bind t.get?

def currentSupertypes : List TypeRef := ((t.currentType? scope).map t.supertypes).getD []

def enclosingSymbols : List TypeSymbol := scope.enclosing.filterMap t.get?

def writtenType? (name : String) : Option TypeRef := t.type? name c scope.enclosing

def resultType? (owner : TypeSymbol) (written : Option String) : Option TypeRef :=
  written.bind (t.typeInBody? owner)

def nameType? (name : String) : Option TypeRef :=
  match scope.locals.get? name with
  | some type => t.writtenType? c scope type
  | none =>
    match (t.enclosingSymbols scope).findSome? (t.findField name) with
    | some (owner, type) => t.typeInBody? owner type
    | none => t.writtenType? c scope name

/-- The type of a field of some object, or else of the dotted name that the whole chain spells. -/
def fieldType? (object : Option TypeRef) (name : String) (dotted : Option String) :
    Option TypeRef :=
  match (object.bind TypeRef.known?).bind (t.findField name) with
  | some (owner, type) => t.typeInBody? owner type
  | none => dotted.bind (t.writtenType? c scope)

def methodIn? (owners : List TypeSymbol) (name : String) : Option (TypeSymbol × Option String) :=
  owners.findSome? (t.findMethod name)

/-- The types a receiver can have: all supertypes for `super`, else at most one. -/
def receiverTypes : Receiver → List TypeRef
  | .this => ((t.currentType? scope).map TypeRef.known).toList
  | .super => t.currentSupertypes scope
  | .name s => (t.nameType? c scope s).toList
  | .field object f =>
    (t.fieldType? c scope (receiverTypes object).head? f
      (Receiver.dottedName? (.field object f))).toList
  | .call m =>
    ((t.methodIn? (t.enclosingSymbols scope) m).bind fun p => t.resultType? p.1 p.2).toList
  | .callOn object m =>
    ((t.methodIn? ((receiverTypes object).filterMap TypeRef.known?) m).bind fun p =>
      t.resultType? p.1 p.2).toList
  | .create type => (t.writtenType? c scope type).toList
  | .cast type => (t.writtenType? c scope type).toList
  | .unknown => []

def receiverType? (r : Receiver) : Option TypeRef := (t.receiverTypes c scope r).head?

def libraryOf? : TypeRef → Option Declaration
  | .known _ => none
  | .library q => some (TypeRef.library q).declaration

/-- A method of an enclosing type or of the receiver. A library type is taken to have any. -/
def callTarget? (receiver : Option Receiver) (name : String) : Option Declaration :=
  let owners := match receiver with
    | none => t.enclosingSymbols scope
    | some r => (t.receiverTypes c scope r).filterMap TypeRef.known?
  match t.methodIn? owners name with
  | some (owner, _) => some (TypeRef.known owner).declaration
  | none =>
    match receiver with
    | none | some .super => none
    | some r => (t.receiverType? c scope r).bind libraryOf?

/-- The first of the receiver's types with an answer. A library type is taken to have any field. -/
def fieldTarget? (name : String) : List TypeRef → Option Declaration
  | [] => none
  | .known s :: r =>
    match t.findField name s with
    | some (owner, _) => some (TypeRef.known owner).declaration
    | none => fieldTarget? name r
  | .library q :: _ => some (TypeRef.library q).declaration

def mentionTarget? : Mention → Option Declaration
  | .supertype name => (t.writtenType? c scope name).map TypeRef.declaration
  | .call receiver name => t.callTarget? c scope receiver name
  | .field receiver name => t.fieldTarget? name (t.receiverTypes c scope receiver)

/-- The declaration that a reference means. In a scope that is not there it means none. -/
def resolve (u : SourceUnit) (r : Reference) : Option Declaration :=
  u.scopes[r.scope]?.bind fun scope => t.mentionTarget? u.context scope r.mention

end PackageModularity.TypeTable

import PackageModularity.Source.Declaration

/-!
A source unit read off a syntax tree. The tree is gone through in preorder, which gives a list of
events; entering and leaving scopes are events too, so the scope of every other event is the one
entered last and not left yet. Scopes are numbered in the order they are entered, from one on; scope
zero is that of the file.
-/
namespace PackageModularity

inductive Event where
  | enter (enclosing : List String)
  | leave
  | declareLocal (name type : String)
  | mention (m : Mention)
  | define (d : TypeDecl)

namespace SyntaxTree

def qualified (c : FileContext) (enclosing : List String) (name : String) : String :=
  match enclosing with
  | outer :: _ => Name.inside outer name
  | [] => c.qualify name

def localEvents (t : SyntaxTree) : List Event := t.locals.map fun l => .declareLocal l.1 l.2

mutual

/-- The events of a tree that lies in some types, as far as so many levels deep. Every method has a
scope, every named type one for its header and one for its body. -/
def events (c : FileContext) (enclosing : List String) : Nat → SyntaxTree → List Event
  | 0, _ => []
  | depth + 1, .node kind role text children =>
    let self : SyntaxTree := .node kind role text children
    match kind with
    | .packageDeclaration | .importDeclaration => []
    | .typeDeclaration =>
      match self.childText? .name with
      | none => eventsOfAll c enclosing depth children
      | some name =>
        let q := qualified c enclosing name
        [.enter enclosing] ++ self.supertypeNames.map (fun s => .mention (.supertype s)) ++
          [.leave, .define (self.declaration name q enclosing), .enter (q :: enclosing)] ++
          eventsOfBody c (q :: enclosing) depth children ++ [.leave]
    | .methodDeclaration | .constructorDeclaration =>
      [.enter enclosing] ++ eventsOfAll c enclosing depth children ++ [.leave]
    | _ =>
      self.localEvents ++ (self.mention? depth).toList.map .mention ++
        eventsOfAll c enclosing depth children

def eventsOfAll (c : FileContext) (enclosing : List String) (depth : Nat) :
    List SyntaxTree → List Event
  | [] => []
  | t :: r => events c enclosing depth t ++ eventsOfAll c enclosing depth r

def eventsOfBody (c : FileContext) (enclosing : List String) (depth : Nat) :
    List SyntaxTree → List Event
  | [] => []
  | t :: r =>
    if t.role = .body then events c enclosing depth t else eventsOfBody c enclosing depth r

end

end SyntaxTree

namespace Event

def numbered : Nat → List Nat → List Event → List (Nat × Event)
  | _, _, [] => []
  | next, within, .enter enclosing :: r =>
    (next, .enter enclosing) :: numbered (next + 1) (next :: within) r
  | next, within, .leave :: r => numbered next within.tail r
  | next, within, e :: r => (within.headD 0, e) :: numbered next within r

def define? : Nat × Event → Option TypeDecl
  | (_, .define d) => some d
  | _ => none

def reference? : Nat × Event → Option Reference
  | (scope, .mention m) => some ⟨m, scope⟩
  | _ => none

def localIn? (scope : Nat) : Nat × Event → Option (String × String)
  | (s, .declareLocal name type) => if s = scope then some (name, type) else none
  | _ => none

def entered? : Nat × Event → Option (Nat × List String)
  | (scope, .enter enclosing) => some (scope, enclosing)
  | _ => none

/-- The locals of a scope. Of two declarations of one name the later counts. -/
def localsIn (es : List (Nat × Event)) (scope : Nat) : Dict String String :=
  Dict.ofList (es.filterMap (localIn? scope))

def scopes (es : List (Nat × Event)) : List Scope :=
  ⟨[], localsIn es 0⟩ :: (es.filterMap entered?).map fun p => ⟨p.2, localsIn es p.1⟩

end Event

def SourceUnit.ofEvents (path : Path) (c : FileContext) (events : List Event) : SourceUnit :=
  let es := Event.numbered 1 [] events
  ⟨path, c, es.filterMap Event.define?, Event.scopes es, es.filterMap Event.reference?⟩

/-- The unit of a tree. Nodes more than `maxDepth` levels below the root are left out. -/
def SourceUnit.ofTree (maxDepth : Nat) (path : Path) (root : SyntaxTree) : SourceUnit :=
  let c := FileContext.ofTree root
  SourceUnit.ofEvents path c (root.events c [] (maxDepth + 1))

def defaultMaxDepth : Nat := 512

/-- Only files whose extension is `java` can be read. -/
def isReadable (path : Path) : Bool :=
  (path.fileName?.bind fun n => (FileName.ofText n).extension) = some "java"

end PackageModularity

import FrontEnd.Program.Statement

/-! Scripts: a namespace, what it imports, and what it defines. -/

namespace FrontEnd.Program

inductive Privacy where
  | visible
  | hidden
  /-- A function of the script itself. -/
  | global
  /-- A function that is implemented elsewhere and has no body. -/
  | foreign
  deriving DecidableEq

namespace Privacy

def text : Privacy → String
  | visible => "Public"
  | hidden => "Private"
  | global => "Global"
  | foreign => "Foreign"

def toTree (p : Privacy) : Tree :=
  .value p.text

end Privacy

inductive DefinitionError where
  | voidParameter (name : String)
  deriving DecidableEq

namespace DefinitionError

def message : DefinitionError → String
  | voidParameter name => "parameter `" ++ name ++ "` can't be of type void"

end DefinitionError

structure Attribute where
  name : String
  args : List Expr

/-- A parameter of a function, which has values. -/
structure Parameter where
  name : String
  type : TypeRef
  deriving DecidableEq

structure MethodDecl where
  attributes : List Attribute
  name : String
  privacy : Privacy
  isStatic : Bool
  params : List Parameter
  returns : TypeRef
  /-- Missing if the function is implemented elsewhere. -/
  body : Option (List Statement)

structure FieldDecl where
  attributes : List Attribute
  name : String
  privacy : Privacy
  isStatic : Bool
  type : TypeRef

structure ClassDecl where
  attributes : List Attribute
  name : String
  privacy : Privacy
  fields : List FieldDecl
  methods : List MethodDecl

/-- A script. Its namespace and its imports are paths of names. -/
structure Script where
  path : List String
  imports : List (List String)
  classes : List ClassDecl
  functions : List MethodDecl

namespace Parameter

/-- The parameter of that name and type, unless the type has no values. -/
def of (name : String) (type : TypeRef) : Except DefinitionError Parameter :=
  if type.isVoid then .error (.voidParameter name) else .ok ⟨name, type⟩

def toTree (p : Parameter) : Tree :=
  .node "Parameter" [("name", .str p.name), ("type", .value p.type.text)]

end Parameter

namespace Attribute

def toTree (a : Attribute) : Tree :=
  .node "Attribute" [("name", .str a.name), ("args", .list (a.args.map Expr.toTree))]

end Attribute

def staticTree (isStatic : Bool) : Tree :=
  .value (if isStatic then "true" else "false")

namespace MethodDecl

def toTree (m : MethodDecl) : Tree :=
  .node "MethodDef" [("attributes", .list (m.attributes.map Attribute.toTree)),
    ("name", .str m.name), ("privacy", m.privacy.toTree), ("static", staticTree m.isStatic),
    ("params", .node "ParameterList" [("params", .list (m.params.map Parameter.toTree))]),
    ("return_type", .value m.returns.text), ("body", .ofOption Statement.listTree m.body)]

end MethodDecl

namespace FieldDecl

def toTree (f : FieldDecl) : Tree :=
  .node "FieldDef" [("attributes", .list (f.attributes.map Attribute.toTree)),
    ("name", .str f.name), ("privacy", f.privacy.toTree), ("static", staticTree f.isStatic),
    ("type", .value f.type.text)]

end FieldDecl

namespace ClassDecl

def toTree (c : ClassDecl) : Tree :=
  .node "Class" [("attributes", .list (c.attributes.map Attribute.toTree)), ("name", .str c.name),
    ("privacy", c.privacy.toTree), ("fields", .list (c.fields.map FieldDecl.toTree)),
    ("methods", .list (c.methods.map MethodDecl.toTree))]

end ClassDecl

namespace Script

def pathTree (segments : List String) : Tree :=
  .node "Namespace" [("segments", .list (segments.map .str))]

def importTree (segments : List String) : Tree :=
  .node "Import" [("namespace", pathTree segments)]

def toTree (s : Script) : Tree :=
  .node "Script" [("namespace", pathTree s.path), ("imports", .list (s.imports.map importTree)),
    ("classes", .list (s.classes.map ClassDecl.toTree)),
    ("functions", .list (s.functions.map MethodDecl.toTree))]

end Script

end FrontEnd.Program

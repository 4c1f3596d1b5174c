import JavaSource.Rendering.SyntaxEvents

/-!
# Events of annotations and members
-/

namespace JavaSource

open Event

/-- An annotation with its members already walked. A member called `value` is written without its name when it
is the only one. -/
def Event.ofUse (type : ClassId) (members : List (String × List Event)) : List Event :=
  .text "@" :: .reference type ::
    match members with
    | [] => []
    | [(name, value)] =>
      if name = "value" then parens value else parens (.text name :: .text " = " :: value)
    | members => parens (commas (members.map fun m ↦ .text m.1 :: .text " = " :: m.2))

namespace AnnotationValue

mutual

def events (w : Walk) : AnnotationValue → List Event
  | .bool b => (Expr.bool b).events w
  | .int n => (Expr.int n).events w
  | .long n => (Expr.long n).events w
  | .float x => (Expr.ofFloat x).events w
  | .double x => (Expr.ofDouble x).events w
  | .char c => (Expr.char c).events w
  | .string s => (Expr.string s).events w
  | .classLiteral t => w.type t ++ [.text ".class"]
  | .enumConstant c constant => [.reference c, .text ".", .text constant]
  | .nested type members => ofUse type (eventsMembers w members)
  | .array items => .text "\x7b" :: commas (eventsEach w items) ++ [.text "\x7d"]

def eventsMembers (w : Walk) : List (String × AnnotationValue) → List (String × List Event)
  | [] => []
  | (name, v) :: rest => (name, events w v) :: eventsMembers w rest

def eventsEach (w : Walk) : List AnnotationValue → List (List Event)
  | [] => []
  | v :: vs => events w v :: eventsEach w vs

end

end AnnotationValue

def AnnotationUse.events (w : Walk) (u : AnnotationUse) : List Event :=
  ofUse u.type (AnnotationValue.eventsMembers w u.members.entries)

namespace Walk

/-- Annotations on lines of their own. -/
def annotationLines (w : Walk) (us : List AnnotationUse) : List Event :=
  us.flatMap fun u ↦ u.events w ++ [.newline]

/-- Annotations in a row. -/
def annotations (w : Walk) (us : List AnnotationUse) : List Event := us.flatMap (·.events w)

end Walk

def EnumConstant.events (w : Walk) (c : EnumConstant) : List Event :=
  ofJavadoc c.javadoc ++ .identifier c.name ::
    (if c.args.isEmpty then [] else parens (commas (Expr.eventsEach w c.args)))

/-- The constants of an enum, a semicolon behind the last. -/
def EnumConstant.eventsAll (w : Walk) : List EnumConstant → List Event
  | [] => []
  | [c] => c.events w ++ [.text ";", .newline]
  | c :: rest => c.events w ++ .text "," :: .newline :: eventsAll w rest

def Field.events (w : Walk) (f : Field) : List Event :=
  ofJavadoc f.javadoc ++ w.annotationLines f.annotations ++ ofModifiers f.mods ++ w.type f.type ++
    .identifier f.name ::
    (match f.init with
      | none => []
      | some e => .text " = " :: e.events w) ++ [.text ";", .newline]

def InitBlock.events (w : Walk) (b : InitBlock) : List Event :=
  (if b.isStatic then [.text "static"] else []) ++ Stmt.eventsBlock w b.body ++ [.newline]

def Param.events (w : Walk) (p : Param) : List Event :=
  w.annotations p.annotations ++ ofModifiers p.mods ++ w.type p.type ++ [.identifier p.name]

def Param.varargsEvents (w : Walk) (p : Param) : List Event :=
  w.annotations p.annotations ++ ofModifiers p.mods ++ w.type p.type ++
    [.text "... ", .identifier p.name]

namespace Method

def typeParamEvents (w : Walk) (m : Method) : List Event :=
  if m.typeParams = [] then []
  else (if m.mods.isEmpty then [] else [.text " "]) ++ w.typeParams m.typeParams

/-- Return type and name, the name alone for a constructor. -/
def nameEvents (w : Walk) (m : Method) : List Event :=
  match m.returnType with
  | some t => w.type t ++ [.identifier m.name]
  | none => [.text m.name]

def paramEvents (w : Walk) (m : Method) : List Event :=
  parens (commas (m.params.map (·.events w) ++ m.varargs.toList.map (·.varargsEvents w)))

def events (w : Walk) (m : Method) : List Event :=
  ofJavadoc m.javadoc ++ w.annotationLines m.annotations ++ ofModifiers m.mods ++
    m.typeParamEvents w ++ m.nameEvents w ++ m.paramEvents w ++
    (if m.throws = [] then [] else .text " throws " :: w.types m.throws) ++
    (match m.defaultValue with
      | none => []
      | some v => .text " default " :: v.events w) ++
    (match m.body with
      | none => [.text ";"]
      | some b => Stmt.eventsBlock w b) ++ [.newline]

end Method
end JavaSource

import PathTemplate.Function
import PathTemplate.Policy
import PathTemplate.Schema
import PathTemplate.Template.Basic
import PathTemplate.Tree.Basic
import PathTemplate.Tree.Error

/-!
The render tree of a template over an input type. A chain becomes a path of nodes, each the only
child of the one before. A guard stands before every step out of a value that may be absent, and
before arithmetic, casts and joins on it; the value at the end is checked where it is printed.
-/

namespace PathTemplate.Tree

variable {ρ : Type}

structure Scope (ρ : Type) where
  schema : Schema ρ
  functions : Functions ρ
  policy : Policy
  input : String

inductive Lookup where
  /-- A field, else a method, else a key. -/
  | member
  | method
  /-- A key, or a member of that name. -/
  | key
  deriving DecidableEq, Repr

inductive Miss where
  | unknownType (name : String)
  | noMember (owner : String)
  | notNavigable (ty : Ty)

def memberOf? (shape : Shape ρ) (name : String) : Lookup → Option (Member ρ)
  | .method => shape.method? name
  | _ => (shape.field? name).or (shape.method? name)

def accessTo (owner : String) (m : Member ρ) (name : String) : Access :=
  match m.kind with
  | .field => .field owner name
  | .method => .method owner name

/-- One step from a value of a type: what is accessed, and the type it has. -/
def stepFrom (schema : Schema ρ) (ty : Ty) (name : String) (lookup : Lookup) :
    Except Miss (Access × FlaggedTy) :=
  match ty with
  | .record owner =>
    match schema.shape? owner with
    | none => .error (.unknownType owner)
    | some shape =>
      match memberOf? shape name lookup with
      | none => .error (.noMember owner)
      | some m => .ok (accessTo owner m name, m.ty)
  | .map value =>
    if lookup = .method then .error (.notNavigable ty)
    else .ok (.key name, (FlaggedTy.plain value).asNullable)
  | ty => .error (.notNavigable ty)

def nodeOf : Access → NodeKind
  | .field owner name => .field owner name
  | .method owner name => .method owner name
  | .key k => .mapAccess k

structure Path where
  /-- Its nodes, last first, each without the one that follows. -/
  links : List Node
  cur : FlaggedTy
  /-- Whether it ended in a join or in a name that leads nowhere. -/
  done : Bool
  notFound : Bool

namespace Path

def start (base : FlaggedTy) : Path := ⟨[], base, false, false⟩

def link (p : Path) (kind : NodeKind) (ty : FlaggedTy) (span : Span) (children : List Node := []) :
    Path :=
  { p with links := .mk kind ty span children [] :: p.links, cur := ty }

def guard (p : Path) (span : Span) : Path :=
  let p :=
    if p.cur.optional then p.link .optionalGuard { p.cur with optional := false } span else p
  if p.cur.nullable then p.link .nullableGuard p.cur.present span else p

def miss (p : Path) (e : ResolveError) : Path :=
  { p.link (.notFound e.name) .unknown e.span with done := true, notFound := true }

def withDefault (p : Path) (value : Fallback) (ty : FlaggedTy) (span : Span) : Path :=
  { p with
    links := p.links.map fun n =>
      if n.kind.isGuard then n.withOtherwise (n.otherwise ++ [.leaf (.default value) ty span])
      else n }

def close (p : Path) (span : Span) : Node :=
  match p.links with
  | [] => .leaf (.notFound "") .unknown span
  | last :: before =>
    before.foldl (fun below n => n.withChildren (n.children ++ [below])) last

end Path

/-- A path goes on without the name, unless the policy forbids it. -/
def unresolved (s : Scope ρ) (p : Path) (e : ResolveError) : Except BuildError Path :=
  match s.policy with
  | .strict => .error (.resolve e)
  | .lenient => .ok (p.miss e)

def navigate (s : Scope ρ) (p : Path) (id : Ident) (lookup : Lookup) : Except BuildError Path :=
  let p := p.guard id.span
  match stepFrom s.schema p.cur.ty id.name lookup with
  | .ok (access, ty) => .ok (p.link (nodeOf access) ty id.span)
  | .error (.unknownType name) => unresolved s p (.unknownType name id.span)
  | .error (.noMember owner) =>
    unresolved s p
      (if lookup = .method then .unknownMethod owner id.name id.span
        else .unknownMember owner id.name id.span)
  | .error (.notNavigable ty) => unresolved s p (.notNavigable ty id.name id.span)

def naturalConstant : LiteralKind → Constant
  | .string s => .string s
  | .param name => .string name
  | .number (.int n) => .long n
  | .number (.float x) => .double x
  | .bool b => .bool b

def naturalDefault (l : Literal) : Fallback :=
  match l.kind with
  | .param name => .param name
  | kind => .constant (naturalConstant kind)

def describe : LiteralKind → String
  | .string s => Text.quoted s
  | .number n => n.text
  | .bool b => if b then "true" else "false"
  | .param name => "$" ++ name

/-- A literal as a constant of a type, if it fits without loss of its whole part. -/
def constantFor? (kind : LiteralKind) (target : Ty) : Option Constant :=
  match kind, target with
  | kind, .unknown => some (naturalConstant kind)
  | .number (.int n), .byte =>
    if -128 ≤ n.toInt ∧ n.toInt < 128 then some (.byte (.ofInt n.toInt)) else none
  | .number (.int n), .short =>
    if -32768 ≤ n.toInt ∧ n.toInt < 32768 then some (.short (.ofInt n.toInt)) else none
  | .number (.int n), .int =>
    if -2147483648 ≤ n.toInt ∧ n.toInt < 2147483648 then some (.int (.ofInt n.toInt)) else none
  | .number (.int n), .long => some (.long n)
  | .number (.int n), .float => some (.float (.ofInt n.toInt))
  | .number (.int n), .double => some (.double (.ofInt n.toInt))
  | .number (.float x), .float => some (.float x.narrow)
  | .number (.float x), .double => some (.double x)
  | .number n, .string => some (.string n.text)
  | .string s, .string => some (.string s)
  | .string s, .enum _ => some (.enum s)
  | .bool b, .bool => some (.bool b)
  | .bool b, .string => some (.string (if b then "true" else "false"))
  | _, _ => none

def defaultFor (l : Literal) (target : Ty) : Except BuildError Fallback :=
  match l.kind with
  | .param name => .ok (.param name)
  | kind =>
    match constantFor? kind target with
    | some c => .ok (.constant c)
    | none => .error (.type (.incompatibleDefault (describe kind) target l.span))

/-- The names a plain path goes through; none when it is no plain path. -/
def plainSteps? : List Step → Option (List (Ident × Lookup))
  | [] => some []
  | .member id :: rest => (plainSteps? rest).map ((id, .member) :: ·)
  | .call id :: rest => (plainSteps? rest).map ((id, .method) :: ·)
  | .key id :: rest => (plainSteps? rest).map ((id, .key) :: ·)
  | .join .. :: _ => none

def plainPath? (c : Chain) : Option (List (Ident × Lookup)) :=
  if c.arithmetic.isSome || c.conversion.isSome then none
  else
    match c.head with
    | .name id => (plainSteps? c.steps).map ((id, .member) :: ·)
    | .key id => (plainSteps? c.steps).map ((id, .key) :: ·)
    | .call .. => none

def accessPath (schema : Schema ρ) :
    Ty → List (Ident × Lookup) → Except ResolveError (List Access × Ty)
  | ty, [] => .ok ([], ty)
  | ty, (id, lookup) :: rest =>
    match stepFrom schema ty id.name lookup with
    | .ok (access, next) => do
      let (accesses, last) ← accessPath schema next.ty rest
      return (access :: accesses, last)
    | .error (.unknownType name) => .error (.unknownType name id.span)
    | .error (.noMember owner) => .error (.unknownMember owner id.name id.span)
    | .error (.notNavigable ty) => .error (.notNavigable ty id.name id.span)

/-- An argument and its type. A path that leads nowhere is null, unless the policy forbids it. -/
def argument (s : Scope ρ) : Arg → Except BuildError (Argument × Ty)
  | .literal l =>
    match l.kind with
    | .param _ => .error (.type (.invalidArgument l.span))
    | kind => .ok (.constant (naturalConstant kind), (naturalConstant kind).ty)
  | .path c =>
    match plainPath? c with
    | none => .error (.type (.invalidArgument c.span))
    | some steps =>
      match accessPath s.schema (.record s.input) steps with
      | .ok (accesses, ty) => .ok (.path accesses, ty)
      | .error e =>
        match s.policy with
        | .strict => .error (.resolve e)
        | .lenient => .ok (.null, .unknown)

/-- The arguments of a function. One whose result may be any of them takes printable ones only. -/
def arguments (s : Scope ρ) (passthrough : Bool) : List Arg → Except BuildError (List Argument)
  | [] => .ok []
  | a :: rest => do
    let (value, ty) ← argument s a
    if passthrough && !ty.isPrintable then .error (.type (.notPrintable ty a.span))
    else
      let values ← arguments s passthrough rest
      return value :: values

def hasMethod (schema : Schema ρ) (ty : Ty) (name : String) : Bool :=
  match ty with
  | .record owner => (schema.shape? owner).any fun shape => (shape.method? name).isSome
  | _ => false

/-- The start of a chain. A call names a function, or else a method of the value it starts from. -/
def head (s : Scope ρ) (p : Path) : Head → Except BuildError Path
  | .name id => navigate s p id .member
  | .key id => navigate s p id .key
  | .call id args =>
    match s.functions.lookup? id.name args.length with
    | some f => do
      let values ← arguments s (f.returns.ty == .unknown) args
      return p.link (.function id.name values) f.returns id.span
    | none =>
      if args.isEmpty && hasMethod s.schema p.cur.ty id.name then navigate s p id .method
      else
        unresolved s p
          (.unknownFunction id.name args.length (s.functions.arities id.name) id.span)

def promoted (ty : Ty) : Operand → Ty
  | .float _ => .double
  | .int _ =>
    match ty with
    | .byte | .short | .int => .int
    | ty => ty

def arithmetic (p : Path) (a : Arithmetic) : Except BuildError Path :=
  let p := p.guard a.span
  if !p.cur.ty.isNumeric then .error (.type (.notNumeric p.cur.ty a.span))
  else
    let ty := promoted p.cur.ty a.operand
    let done := p.link (.math a.op a.operand) (.plain ty) a.span
    match a.operand with
    | .float _ => .ok done
    | .int n =>
      if ty = .int ∧ ¬(-2147483648 ≤ n.toInt ∧ n.toInt < 2147483648) then
        .error (.type (.operandOutOfRange n ty a.span))
      else if ty.isIntegral && n == 0 && (a.op == .div || a.op == .rem) then
        .error (.type (.divisionByZero a.span))
      else .ok done

/-- Casts keep a type, go between numbers, make text of anything printable, and make a number of a
time. -/
def castAllowed (source target : Ty) : Bool :=
  source == target || (source.isNumeric && target.isNumeric) ||
    (target == .string && source.isPrintable) || (source == .dateTime && target == .long)

def conversion (p : Path) (c : Conversion) : Except BuildError Path :=
  let p := p.guard c.span
  if castAllowed p.cur.ty c.target then .ok (p.link (.cast c.target) (.plain c.target) c.span)
  else .error (.type (.invalidCast p.cur.ty c.target c.span))

def chainEnd (p : Path) (a : Option Arithmetic) (c : Option Conversion) :
    Except BuildError Path := do
  if p.done then return p
  else
    let p ← match a with
      | some a => arithmetic p a
      | none => pure p
    match c with
    | some c => conversion p c
    | none => return p

/-- Closes a chain of its own. It prints its value, and what it has for a default goes to the print
and to all its guards. -/
def finish (p : Path) (span : Span) (default : Option Literal) : Except BuildError Node :=
  if p.notFound then
    match default with
    | none => .ok (p.close span)
    | some l =>
      let value := naturalDefault l
      let p := p.link (.default value) (.plain .string) l.span
      .ok ((p.withDefault value (.plain .string) span).close span)
  else do
    let terminal := p.cur
    let value ← default.mapM fun l => defaultFor l terminal.ty
    let p ←
      if p.done then pure p
      else if terminal.ty.isPrintable then pure (p.link (.print value) terminal span)
      else .error (.type (.notPrintable terminal.ty span))
    match value with
    | some v => return (p.withDefault v (.plain terminal.ty) span).close span
    | none => return p.close span

def finishAlternative (p : Path) (span : Span) : Except BuildError (Node × Option FlaggedTy) :=
  if p.notFound then .ok (p.close span, none)
  else if p.done then .ok (p.close span, some p.cur)
  else if p.cur.ty.isPrintable then
    .ok ((p.link (.print none) p.cur span).close span, some p.cur)
  else .error (.type (.notPrintable p.cur.ty span))

/-- The default of alternatives fits the type of each of them and is given in that of the first. -/
def sharedDefault (l : Literal) : List FlaggedTy → Except BuildError Fallback
  | [] => .ok (naturalDefault l)
  | t :: rest => do
    let value ← defaultFor l t.ty
    rest.forM fun t => (defaultFor l t.ty).map fun _ => ()
    return value

def literalNode (text : String) (span : Span) : Node :=
  .leaf (.literal text) (.plain .string) span

mutual

def expr (s : Scope ρ) (base : FlaggedTy) : Expr → Except BuildError Node
  | .mk [c] default _ => do
    let p ← chain s base c
    finish p c.span default
  | .mk alternatives default span => do
    let closed ← chains s base alternatives
    let otherwise ← match default with
      | none => pure []
      | some l => do
        let value ← sharedDefault l (closed.filterMap (·.2))
        pure [.leaf (.default value) (.plain .string) l.span]
    return .mk .orFallback (.plain .string) span (closed.map (·.1)) otherwise

def chains (s : Scope ρ) (base : FlaggedTy) :
    List Chain → Except BuildError (List (Node × Option FlaggedTy))
  | [] => .ok []
  | c :: rest => do
    let p ← chain s base c
    let (n, ty) ← finishAlternative p c.span
    let more ← chains s base rest
    return (.mk .concatenation (.plain .string) c.span [n] [], ty) :: more

def chain (s : Scope ρ) (base : FlaggedTy) : Chain → Except BuildError Path
  | .mk h steps a c _ => do
    let p ← head s (.start base) h
    let p ← followAll s p steps
    chainEnd p a c

def followAll (s : Scope ρ) (p : Path) : List Step → Except BuildError Path
  | [] => .ok p
  | step :: rest => do
    if p.done then return p
    else
      let p ← follow s p step
      followAll s p rest

def follow (s : Scope ρ) (p : Path) : Step → Except BuildError Path
  | .member id => navigate s p id .member
  | .call id => navigate s p id .method
  | .key id => navigate s p id .key
  | .join items span => do
    let p := p.guard span
    let children ← joined s p.cur items
    return { p.link .concatenation (.plain .string) span children with done := true }

def joined (s : Scope ρ) (base : FlaggedTy) : List JoinItem → Except BuildError (List Node)
  | [] => .ok []
  | .text text span :: rest => do
    let more ← joined s base rest
    return literalNode text span :: more
  | .expr e :: rest => do
    let n ← expr s base e
    let more ← joined s base rest
    return n :: more

end

def segments (s : Scope ρ) : List Segment → Except BuildError (List Node)
  | [] => .ok []
  | .text text span :: rest => do
    let more ← segments s rest
    return literalNode text span :: more
  | .expr e :: rest => do
    let n ← expr s (.plain (.record s.input)) e
    let more ← segments s rest
    return n :: more

def ofTemplate (s : Scope ρ) (sink : String) (t : Template) : Except BuildError Node :=
  match s.schema.shape? s.input with
  | none => .error (.resolve (.unknownType s.input .nowhere))
  | some _ => do
    let children ← segments s t.segments
    return .root s.input sink children

end PathTemplate.Tree

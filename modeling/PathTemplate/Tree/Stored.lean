import PathTemplate.Tree.Arena
import PathTemplate.Tree.OfTemplate

/-!
Templates resolved into an arena. Nodes are stored one after the other, each behind the children
that its parent has so far. Those of a chain are hung one below the other, and a default is stored
anew for every guard that may have to write it.
-/

namespace PathTemplate.Tree

/-- A chain under construction whose nodes are stored already. -/
structure Draft where
  first? : Option Nat
  last? : Option Nat
  guards : List Nat
  cur : FlaggedTy
  done : Bool
  notFound : Bool

namespace Draft

def start (base : FlaggedTy) : Draft := ⟨none, none, [], base, false, false⟩

def ahead (d : Draft) : Path := ⟨[], d.cur, d.done, d.notFound⟩

/-- Stores a node below the last one, and gives its number. -/
def link (d : Draft) (kind : NodeKind) (ty : FlaggedTy) (span : Span) (a : Arena) :
    Nat × Draft × Arena :=
  let (id, a) := a.insert ⟨kind, ty, span, [], []⟩
  let d' : Draft :=
    { d with
      first? := d.first?.or (some id)
      last? := some id
      guards := if kind.isGuard then d.guards ++ [id] else d.guards
      cur := ty }
  match d.last? with
  | some last => (id, d', a.link last id)
  | none => (id, d', a)

def extend (d : Draft) (p : Path) (a : Arena) : Draft × Arena :=
  let (d, a) := p.links.foldr (fun n r => (r.1.link n.kind n.ty n.span r.2).2) (d, a)
  ({ d with cur := p.cur, done := p.done, notFound := p.notFound }, a)

def close (d : Draft) (span : Span) (a : Arena) : Nat × Arena :=
  match d.first? with
  | some id => (id, a)
  | none => a.insert ⟨.notFound "", .unknown, span, [], []⟩

end Draft

def Arena.defaultGuards (value : Fallback) (ty : FlaggedTy) (span : Span) (guards : List Nat)
    (a : Arena) : Arena :=
  guards.foldl (fun a guard =>
    let (id, a) := a.insert ⟨.default value, ty, span, [], []⟩
    a.linkOtherwise guard id) a

variable {ρ : Type}

namespace Stored

def finish (d : Draft) (span : Span) (default : Option Literal) (a : Arena) :
    Except BuildError (Nat × Arena) :=
  if d.notFound then
    match default with
    | none => .ok (d.close span a)
    | some l =>
      let value := naturalDefault l
      let (_, d, a) := d.link (.default value) (.plain .string) l.span a
      .ok (d.close span (Arena.defaultGuards value (.plain .string) span d.guards a))
  else do
    let terminal := d.cur
    let value ← default.mapM fun l => defaultFor l terminal.ty
    let (d, a) ←
      if d.done then pure (d, a)
      else if terminal.ty.isPrintable then pure (d.link (.print value) terminal span a).2
      else .error (.type (.notPrintable terminal.ty span))
    match value with
    | some v => return d.close span (Arena.defaultGuards v (.plain terminal.ty) span d.guards a)
    | none => return d.close span a

def finishAlternative (d : Draft) (span : Span) (a : Arena) :
    Except BuildError ((Nat × Option FlaggedTy) × Arena) :=
  if d.notFound then
    let (id, a) := d.close span a
    .ok ((id, none), a)
  else if d.done then
    let (id, a) := d.close span a
    .ok ((id, some d.cur), a)
  else if d.cur.ty.isPrintable then
    let (_, d', a) := d.link (.print none) d.cur span a
    let (id, a) := d'.close span a
    .ok ((id, some d.cur), a)
  else .error (.type (.notPrintable d.cur.ty span))

def literal (text : String) (span : Span) (a : Arena) : Nat × Arena :=
  a.insert ⟨.literal text, .plain .string, span, [], []⟩

mutual

def expr (s : Scope ρ) (base : FlaggedTy) : Expr → Arena → Except BuildError (Nat × Arena)
  | .mk [c] default _, a => do
    let (d, a) ← chain s base c a
    finish d c.span default a
  | .mk alternatives default span, a => do
    let (id, a) := a.insert ⟨.orFallback, .plain .string, span, [], []⟩
    let (types, a) ← chains s base id alternatives a
    match default with
    | none => return (id, a)
    | some l => do
      let value ← sharedDefault l (types.filterMap fun t => t)
      let (leaf, a) := a.insert ⟨.default value, .plain .string, l.span, [], []⟩
      return (id, a.linkOtherwise id leaf)

/-- Alternatives below a stored node. Gives the types at their ends. -/
def chains (s : Scope ρ) (base : FlaggedTy) (parent : Nat) :
    List Chain → Arena → Except BuildError (List (Option FlaggedTy) × Arena)
  | [], a => .ok ([], a)
  | c :: rest, a => do
    let (id, a) := a.insert ⟨.concatenation, .plain .string, c.span, [], []⟩
    let (d, a) ← chain s base c a
    let ((first, ty), a) ← finishAlternative d c.span a
    let (types, a) ← chains s base parent rest ((a.link id first).link parent id)
    return (ty :: types, a)

def chain (s : Scope ρ) (base : FlaggedTy) : Chain → Arena → Except BuildError (Draft × Arena)
  | .mk h steps arithmetic conversion _, a => do
    let p ← head s (.start base) h
    let (d, a) := (Draft.start base).extend p a
    let (d, a) ← followAll s d steps a
    let p ← chainEnd d.ahead arithmetic conversion
    return d.extend p a

def followAll (s : Scope ρ) (d : Draft) :
    List Step → Arena → Except BuildError (Draft × Arena)
  | [], a => .ok (d, a)
  | step :: rest, a => do
    if d.done then return (d, a)
    else
      let (d, a) ← follow s d step a
      followAll s d rest a

def follow (s : Scope ρ) (d : Draft) : Step → Arena → Except BuildError (Draft × Arena)
  | .join items span, a => do
    let (d, a) := d.extend (d.ahead.guard span) a
    let (id, d', a) := d.link .concatenation (.plain .string) span a
    let ((), a) ← joined s d.cur id items a
    return ({ d' with done := true }, a)
  | .member id, a => do return d.extend (← navigate s d.ahead id .member) a
  | .call id, a => do return d.extend (← navigate s d.ahead id .method) a
  | .key id, a => do return d.extend (← navigate s d.ahead id .key) a

def joined (s : Scope ρ) (base : FlaggedTy) (parent : Nat) :
    List JoinItem → Arena → Except BuildError (Unit × Arena)
  | [], a => .ok ((), a)
  | .text text span :: rest, a =>
    let (id, a) := literal text span a
    joined s base parent rest (a.link parent id)
  | .expr e :: rest, a => do
    let (id, a) ← expr s base e a
    joined s base parent rest (a.link parent id)

end

def segments (s : Scope ρ) (parent : Nat) :
    List Segment → Arena → Except BuildError (Unit × Arena)
  | [], a => .ok ((), a)
  | .text text span :: rest, a =>
    let (id, a) := literal text span a
    segments s parent rest (a.link parent id)
  | .expr e :: rest, a => do
    let (id, a) ← expr s (.plain (.record s.input)) e a
    segments s parent rest (a.link parent id)

def ofTemplate (s : Scope ρ) (sink : String) (t : Template) : Except BuildError (Nat × Arena) :=
  match s.schema.shape? s.input with
  | none => .error (.resolve (.unknownType s.input .nowhere))
  | some _ => do
    let (root, a) :=
      Arena.empty.insert ⟨.root s.input sink, .plain (.record s.input), .nowhere, [], []⟩
    let ((), a) ← segments s root t.segments a
    return (root, a)

end Stored

end PathTemplate.Tree

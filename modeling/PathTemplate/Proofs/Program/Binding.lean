import PathTemplate.Proofs.Compiler.Stages
import PathTemplate.Proofs.Program.Linking

/-!
What a routine asks to be bound. A routine mentions its input type, temporaries, members and
functions in the order in which it is written down. Linking reports exactly the mentions that are
not bound, whatever the routine; a program that comes out of it stays within its registers; and
nothing is left unbound in a routine that was made from a template.
-/

namespace PathTemplate

open PathTemplate.Routine

variable {ρ σ : Type}

/-- Something that has to be there before a routine can run. -/
inductive Mention where
  | input (name : String)
  | temp (t : Nat)
  | member (kind : MemberKind) (owner name : String)
  | function (name : String) (arity : Nat)
  deriving DecidableEq, Repr

/-- Keys of maps are looked up during a run only. -/
def Access.mentions : Access → List Mention
  | .field owner name => [.member .field owner name]
  | .method owner name => [.member .method owner name]
  | .key _ => []

def Argument.mentions : Argument → List Mention
  | .path steps => steps.flatMap Access.mentions
  | .constant _ | .null => []

/-- The mentions of a statement, without those of the statements inside it. -/
def Stmt.mentions : Stmt → List Mention
  | .load dst src access => [.temp dst, .temp src] ++ access.mentions
  | .math dst src .. | .cast dst src _ => [.temp dst, .temp src]
  | .call dst function args =>
    [.temp dst] ++ args.flatMap Argument.mentions ++ [.function function args.length]
  | .ifPresent _ value .. | .emit value _ => [.temp value]
  | .text _ | .emitDefault _ | .capture .. | .firstNonEmpty .. | .missing _ => []

def Routine.mentions (r : Routine) : List Mention :=
  .input r.input :: r.walk.flatMap Stmt.mentions

namespace Mention

def isBound (sc : Link.Scope ρ) : Mention → Bool
  | .input name => (sc.schema.shape? name).isSome
  | .temp t => t < sc.temps
  | .member kind owner name => ((sc.schema.shape? owner).bind (·.member? kind name)).isSome
  | .function name arity => (sc.functions.lookup? name arity).isSome

def error : Mention → LinkError
  | .input name => .unknownType name
  | .temp t => .tempOutOfRange t
  | .member _ owner name => .noMember owner name
  | .function name arity => .noFunction name arity

end Mention

def Link.reports (sc : Link.Scope ρ) (mentions : List Mention) : List LinkError :=
  (mentions.filter (!·.isBound sc)).map Mention.error

namespace Link

variable (sc : Scope ρ)

@[simp] theorem reports_nil : reports sc [] = [] := rfl

@[simp] theorem reports_append (a b : List Mention) :
    reports sc (a ++ b) = reports sc a ++ reports sc b := by
  simp [reports]

theorem reports_eq_nil_iff (mentions : List Mention) :
    reports sc mentions = [] ↔ ∀ m ∈ mentions, m.isBound sc := by
  simp [reports]

@[simp] theorem reports_cons (m : Mention) (rest : List Mention) :
    reports sc (m :: rest) = (if m.isBound sc then [] else [m.error]) ++ reports sc rest := by
  cases h : m.isBound sc <;> simp [reports, h]

theorem reports_temp (t : Nat) : slot sc t = if (Mention.temp t).isBound sc then [] else
    [(Mention.temp t).error] := by
  by_cases h : t < sc.temps <;> simp [slot, Mention.isBound, Mention.error, h]

theorem bind_reports (a : Access) : reports sc a.mentions =
    match bind sc a with
    | .ok _ => []
    | .error e => [e] := by
  cases a with
  | key => rfl
  | field owner name =>
    cases h : (sc.schema.shape? owner).bind (·.member? .field name) <;>
      simp [Access.mentions, bind, Mention.isBound, Mention.error, Shape.field?, h]
  | method owner name =>
    cases h : (sc.schema.shape? owner).bind (·.member? .method name) <;>
      simp [Access.mentions, bind, Mention.isBound, Mention.error, Shape.method?, h]

theorem bindAll_reports (steps : List Access) :
    (bindAll sc steps).2 = reports sc (steps.flatMap Access.mentions) := by
  induction steps with
  | nil => rfl
  | cons a rest ih =>
    have ha := bind_reports sc a
    rw [List.flatMap_cons, reports_append, ← ih, ha, bindAll]
    cases bind sc a <;> rfl

theorem argument_reports (a : Argument) : (argument sc a).2 = reports sc a.mentions := by
  cases a with
  | constant | null => rfl
  | path steps => exact bindAll_reports sc steps

theorem arguments_reports (args : List Argument) :
    (arguments sc args).2 = reports sc (args.flatMap Argument.mentions) := by
  simp only [arguments, List.flatMap_map]
  induction args with
  | nil => rfl
  | cons a rest ih =>
    rw [List.flatMap_cons, List.flatMap_cons, reports_append, ih, argument_reports]

mutual

theorem stmt_reports (st : Stmt) :
    (stmt sc st).2 = reports sc (st.walk.flatMap Stmt.mentions) := by
  cases st with
  | text | emitDefault | missing => rfl
  | load dst src access =>
    have ha := bind_reports sc access
    simp only [stmt, Stmt.walk, Stmt.mentions, List.flatMap_cons, List.flatMap_nil,
      List.append_nil, reports_append, reports_cons, reports_nil, reports_temp, ha]
    cases bind sc access <;> simp
  | math | cast =>
    simp [stmt, Stmt.walk, Stmt.mentions, reports_temp]
  | call dst function args =>
    have ha := arguments_reports sc args
    simp only [stmt, Stmt.walk, Stmt.mentions, List.flatMap_cons, List.flatMap_nil,
      List.append_nil, reports_append, reports_cons, reports_nil, reports_temp, ← ha]
    cases h : sc.functions.lookup? function args.length <;>
      simp [Mention.isBound, Mention.error, h]
  | emit => simp [stmt, Stmt.walk, Stmt.mentions, reports_temp]
  | ifPresent guard value present otherwise =>
    have hp := block_reports present
    have ho := block_reports otherwise
    simp [stmt, Stmt.walk, Stmt.mentions, reports_temp, hp, ho]
  | capture sink parent body =>
    have hb := block_reports body
    simp [stmt, Stmt.walk, Stmt.mentions, hb]
  | firstNonEmpty sink parent alternatives otherwise =>
    have ha := blocks_reports alternatives
    have ho := block_reports otherwise
    simp [stmt, Stmt.walk, Stmt.mentions, ha, ho]

theorem block_reports (stmts : List Stmt) :
    (block sc stmts).2 = reports sc ((Stmt.walkAll stmts).flatMap Stmt.mentions) := by
  cases stmts with
  | nil => rfl
  | cons st rest =>
    have hs := stmt_reports st
    have hr := block_reports rest
    simp [block, Stmt.walkAll, hs, hr]

theorem blocks_reports (bodies : List (List Stmt)) :
    (blocks sc bodies).2 = reports sc ((Stmt.walkEach bodies).flatMap Stmt.mentions) := by
  cases bodies with
  | nil => rfl
  | cons body rest =>
    have hb := block_reports body
    have hr := blocks_reports rest
    simp [blocks, Stmt.walkEach, hb, hr]

end

end Link

/-- A routine becomes a program if all its mentions are bound; otherwise the others are reported. -/
theorem Program.link_eq (schema : Schema ρ) (functions : Functions ρ) (r : Routine) :
    Program.link schema functions r =
      let sc : Link.Scope ρ := ⟨schema, functions, r.temps.length⟩
      if (Link.reports sc r.mentions).isEmpty then
        .ok ⟨r.name, r.input, r.sink, max r.temps.length 1, (Link.block sc r.body).1, r.listing⟩
      else .error (Link.reports sc r.mentions) := by
  have hb := Link.block_reports ⟨schema, functions, r.temps.length⟩ r.body
  have hinput : (if (schema.shape? r.input).isSome then []
      else [LinkError.unknownType r.input]) =
      Link.reports ⟨schema, functions, r.temps.length⟩ [.input r.input] := by
    cases h : (schema.shape? r.input).isSome <;> simp [Mention.isBound, Mention.error, h]
  have hall : Link.reports ⟨schema, functions, r.temps.length⟩ r.mentions =
      Link.reports ⟨schema, functions, r.temps.length⟩ [.input r.input] ++
        (Link.block ⟨schema, functions, r.temps.length⟩ r.body).2 := by
    rw [hb, ← Link.reports_append]
    rfl
  simp only [Program.link, hinput, hall]

mutual

/-- An operation that names only the first `n` registers. -/
def Op.IsWithin (n : Nat) : Op ρ → Prop
  | .load dst src _ | .math dst src .. | .cast dst src _ => dst < n ∧ src < n
  | .call dst .. => dst < n
  | .emit value _ => value < n
  | .ifPresent value present otherwise => value < n ∧ allWithin n present ∧ allWithin n otherwise
  | .capture body => allWithin n body
  | .firstNonEmpty alternatives otherwise => eachWithin n alternatives ∧ allWithin n otherwise
  | .text _ | .emitDefault _ => True

def allWithin (n : Nat) : List (Op ρ) → Prop
  | [] => True
  | o :: rest => o.IsWithin n ∧ allWithin n rest

def eachWithin (n : Nat) : List (List (Op ρ)) → Prop
  | [] => True
  | body :: rest => allWithin n body ∧ eachWithin n rest

end

section Linked

variable {sc : Link.Scope ρ}

theorem lt_of_slot {t : Nat} (h : Link.slot sc t = []) : t < sc.temps := by
  by_cases ht : t < sc.temps
  · exact ht
  · simp [Link.slot, ht] at h

mutual

theorem Link.stmt_within (st : Stmt) (h : (Link.stmt sc st).2 = []) :
    ∀ o ∈ (Link.stmt sc st).1, o.IsWithin sc.temps := by
  cases st with
  | text | emitDefault | missing => simp [Link.stmt, Op.IsWithin]
  | load dst src access =>
    cases hb : Link.bind sc access with
    | error e => simp [Link.stmt, hb] at h
    | ok step =>
      simp only [Link.stmt, hb, List.append_eq_nil_iff] at h
      simpa [Link.stmt, hb, Op.IsWithin] using ⟨lt_of_slot h.1, lt_of_slot h.2⟩
  | math | cast =>
    simp only [Link.stmt, List.append_eq_nil_iff] at h
    simpa [Link.stmt, Op.IsWithin] using ⟨lt_of_slot h.1, lt_of_slot h.2⟩
  | call dst function args =>
    cases hf : sc.functions.lookup? function args.length with
    | none => simp [Link.stmt, hf] at h
    | some f =>
      simp only [Link.stmt, hf, List.append_eq_nil_iff] at h
      simpa [Link.stmt, hf, Op.IsWithin] using lt_of_slot h.1
  | emit => simpa [Link.stmt, Op.IsWithin] using lt_of_slot h
  | ifPresent guard value present otherwise =>
    simp only [Link.stmt, List.append_eq_nil_iff] at h
    obtain ⟨⟨hv, hp⟩, ho⟩ := h
    simpa [Link.stmt, Op.IsWithin] using
      ⟨lt_of_slot hv, Link.block_within present hp, Link.block_within otherwise ho⟩
  | capture sink parent body =>
    simpa [Link.stmt, Op.IsWithin] using Link.block_within body h
  | firstNonEmpty sink parent alternatives otherwise =>
    simp only [Link.stmt, List.append_eq_nil_iff] at h
    simpa [Link.stmt, Op.IsWithin] using
      ⟨Link.blocks_within alternatives h.1, Link.block_within otherwise h.2⟩

theorem Link.block_within (stmts : List Stmt) (h : (Link.block sc stmts).2 = []) :
    allWithin sc.temps (Link.block sc stmts).1 := by
  cases stmts with
  | nil => trivial
  | cons st rest =>
    simp only [Link.block, List.append_eq_nil_iff] at h
    have hs := Link.stmt_within st h.1
    have hr := Link.block_within rest h.2
    simp only [Link.block]
    cases ho : (Link.stmt sc st).1 with
    | none => exact hr
    | some o => exact ⟨hs o ho, hr⟩

theorem Link.blocks_within (bodies : List (List Stmt)) (h : (Link.blocks sc bodies).2 = []) :
    eachWithin sc.temps (Link.blocks sc bodies).1 := by
  cases bodies with
  | nil => trivial
  | cons body rest =>
    simp only [Link.blocks, List.append_eq_nil_iff] at h
    exact ⟨Link.block_within body h.1, Link.blocks_within rest h.2⟩

end

end Linked

namespace Run

def write? (regs : Registers ρ) (i : Nat) (v : Value ρ) : Option (Registers ρ) :=
  if i < regs.length then some (regs.set i v) else none

mutual

/-- An operation that comes to nothing when it names a register that is not there. -/
def op? [Sink σ] (env : Env ρ) : Op ρ → Registers ρ → σ → Option (Registers ρ × σ)
  | .text text, regs, s => some (regs, Sink.accept s (Value.string text : Value ρ))
  | .load dst src step, regs, s => do
    let v ← regs[src]?
    return (← write? regs dst (stepInto v step), s)
  | .math dst src o operand ty, regs, s => do
    let v ← regs[src]?
    return (← write? regs dst (v.math o operand ty), s)
  | .cast dst src target, regs, s => do
    let v ← regs[src]?
    return (← write? regs dst (v.cast target), s)
  | .call dst f args, regs, s => do
    return (← write? regs dst (f.body (args.map (argument env))), s)
  | .ifPresent value present otherwise, regs, s => do
    let v ← regs[value]?
    if v.isNull then block? env otherwise regs s else block? env present regs s
  | .emit value check, regs, s => do
    let v ← regs[value]?
    return (regs, emit env v check s)
  | .emitDefault value, regs, s => some (regs, fallback env value s)
  | .capture body, regs, s => do
    let (regs, inner) ← block? env body regs (Sink.fresh s)
    return (regs, Sink.splice s inner)
  | .firstNonEmpty alternatives otherwise, regs, s => do
    match ← first? env alternatives regs (Sink.fresh s) with
    | (regs, some inner) => return (regs, Sink.splice s inner)
    | (regs, none) => block? env otherwise regs s

def block? [Sink σ] (env : Env ρ) : List (Op ρ) → Registers ρ → σ → Option (Registers ρ × σ)
  | [], regs, s => some (regs, s)
  | o :: rest, regs, s => do
    let (regs, s) ← op? env o regs s
    block? env rest regs s

def first? [Sink σ] (env : Env ρ) :
    List (List (Op ρ)) → Registers ρ → σ → Option (Registers ρ × Option σ)
  | [], regs, _ => some (regs, none)
  | body :: rest, regs, inner => do
    let (regs, inner) ← block? env body regs (Sink.reset inner)
    if Sink.isEmpty inner then first? env rest regs inner else return (regs, some inner)

end

theorem write?_eq {regs : Registers ρ} {i : Nat} (h : i < regs.length) (v : Value ρ) :
    write? regs i v = some (regs.set i v) := if_pos h

theorem getElem?_eq_read {regs : Registers ρ} {i : Nat} (h : i < regs.length) :
    regs[i]? = some (read regs i) := by
  simp [read, List.getD_eq_getElem?_getD, h]

section

variable [Sink σ] (env : Env ρ)

mutual

theorem op_length (o : Op ρ) (regs : Registers ρ) (s : σ) :
    (op env o regs s).1.length = regs.length := by
  cases o with
  | text | emit | emitDefault => rfl
  | load | math | cast | call => exact List.length_set
  | ifPresent value present otherwise =>
    rw [op]
    split
    · exact block_length otherwise regs s
    · exact block_length present regs s
  | capture body => exact block_length body regs _
  | firstNonEmpty alternatives otherwise =>
    have hf := first_length alternatives regs (Sink.fresh s)
    rw [op]
    split
    next heq => rwa [heq] at hf
    next heq =>
      rw [heq] at hf
      exact (block_length otherwise _ s).trans hf

theorem block_length (ops : List (Op ρ)) (regs : Registers ρ) (s : σ) :
    (block env ops regs s).1.length = regs.length := by
  cases ops with
  | nil => rfl
  | cons o rest => exact (block_length rest _ _).trans (op_length o regs s)

theorem first_length (bodies : List (List (Op ρ))) (regs : Registers ρ) (inner : σ) :
    (first env bodies regs inner).1.length = regs.length := by
  cases bodies with
  | nil => rfl
  | cons body rest =>
    have hb := block_length body regs (Sink.reset inner)
    simp only [first]
    split
    · exact (first_length rest _ _).trans hb
    · exact hb

end

variable {n : Nat}

mutual

theorem op?_eq (o : Op ρ) (ho : o.IsWithin n) {regs : Registers ρ} (hn : n ≤ regs.length) (s : σ) :
    op? env o regs s = some (op env o regs s) := by
  have hlt : ∀ {i}, i < n → i < regs.length := fun h => Nat.lt_of_lt_of_le h hn
  cases o with
  | text | emitDefault => rfl
  | load | math | cast =>
    simp [op?, op, getElem?_eq_read (hlt ho.2), write?_eq (hlt ho.1)]
  | call => simp [op?, op, write?_eq (hlt ho)]
  | emit => simp [op?, op, getElem?_eq_read (hlt ho)]
  | ifPresent value present otherwise =>
    obtain ⟨hv, hp, ha⟩ := ho
    simp only [op?, op, getElem?_eq_read (hlt hv), Option.bind_eq_bind, Option.bind_some]
    split
    · exact block?_eq otherwise ha hn s
    · exact block?_eq present hp hn s
  | capture body =>
    simp [op?, op, block?_eq body ho hn (Sink.fresh s)]
  | firstNonEmpty alternatives otherwise =>
    obtain ⟨hf, ha⟩ := ho
    have hlen := first_length env alternatives regs (Sink.fresh s)
    simp only [op?, op, first?_eq alternatives hf hn (Sink.fresh s), Option.bind_eq_bind,
      Option.bind_some]
    generalize first env alternatives regs (Sink.fresh s) = result at hlen ⊢
    obtain ⟨regs', inner⟩ := result
    cases inner with
    | none => exact block?_eq otherwise ha (by exact hlen.symm ▸ hn) s
    | some inner => rfl

theorem block?_eq (ops : List (Op ρ)) (ho : allWithin n ops) {regs : Registers ρ}
    (hn : n ≤ regs.length) (s : σ) : block? env ops regs s = some (block env ops regs s) := by
  cases ops with
  | nil => rfl
  | cons o rest =>
    have hlen := op_length env o regs s
    simp only [block?, block, op?_eq o ho.1 hn s, Option.bind_eq_bind, Option.bind_some]
    exact block?_eq rest ho.2 (hlen.symm ▸ hn) _

theorem first?_eq (bodies : List (List (Op ρ))) (ho : eachWithin n bodies) {regs : Registers ρ}
    (hn : n ≤ regs.length) (inner : σ) :
    first? env bodies regs inner = some (first env bodies regs inner) := by
  cases bodies with
  | nil => rfl
  | cons body rest =>
    have hlen := block_length env body regs (Sink.reset inner)
    simp only [first?, first, block?_eq body ho.1 hn (Sink.reset inner), Option.bind_eq_bind,
      Option.bind_some]
    split
    · exact first?_eq rest ho.2 (hlen.symm ▸ hn) _
    · rfl

end

end

end Run

def Program.run? [Sink σ] (p : Program ρ) (input : ρ) (params : Params ρ) (s : σ) : Option σ := do
  let regs ← Run.write? (List.replicate p.registers .null) 0 (.record input)
  let (_, s) ← Run.block? ⟨input, params⟩ p.body regs s
  return s

theorem Program.run?_of_link [Sink σ] {schema : Schema ρ} {functions : Functions ρ} {r : Routine}
    {p : Program ρ} (h : Program.link schema functions r = .ok p) (input : ρ) (params : Params ρ)
    (s : σ) : p.run? input params s = some (p.run input params s) := by
  obtain ⟨-, hb, rfl⟩ := Program.link_eq_ok.mp h
  have hstart : 0 < (List.replicate (max r.temps.length 1) (Value.null : Value ρ)).length := by
    simp only [List.length_replicate]
    omega
  have hlen : r.temps.length ≤
      ((List.replicate (max r.temps.length 1) Value.null).set 0 (.record input)).length := by
    simp only [List.length_set, List.length_replicate]
    omega
  have hrun := Run.block?_eq ⟨input, params⟩ _ (Link.block_within r.body hb) hlen s
  simp only [Program.run?, Run.write?_eq hstart, Option.bind_eq_bind, Option.bind_some, hrun]
  rfl

/-- A routine of whatever origin is refused exactly if it mentions something that is not bound. The
diagnostics are those mentions, each as often and in the order as they are written down. A program
never leaves its registers. -/
theorem link_reports_unbound (schema : Schema ρ) (functions : Functions ρ) (src : Source)
    (r : Routine) :
    ((∃ e, src.link schema functions r = .error e) ↔
      ∃ m ∈ r.mentions, m.isBound ⟨schema, functions, r.temps.length⟩ = false) ∧
    (∀ e, src.link schema functions r = .error e →
      e = ⟨src.template, (r.mentions.filter
        (!·.isBound ⟨schema, functions, r.temps.length⟩)).map (.ofLink ·.error)⟩) ∧
    ∀ p, src.link schema functions r = .ok p → ∀ {σ : Type} [Sink σ] (input : ρ)
      (params : Params ρ) (s : σ), p.run? input params s = some (p.run input params s) := by
  have hlink := Program.link_eq schema functions r
  have hnil := Link.reports_eq_nil_iff ⟨schema, functions, r.temps.length⟩ r.mentions
  refine ⟨?_, fun e he => ?_, fun p hp σ _ input params s => ?_⟩
  · simp only [Source.link, hlink, List.isEmpty_iff, hnil]
    split
    next h =>
      refine iff_of_false ?_ (by simpa using h)
      rintro ⟨e, he⟩
      cases he
    next h => exact iff_of_true ⟨_, rfl⟩ (by simpa using h)
  · simp only [Source.link, hlink] at he
    split at he
    · cases he
    · cases he
      simp [Link.reports]
  · exact Program.run?_of_link (mapError_eq_ok.mp hp) input params s

/-- A routine that no template becomes: its one temporary is the input, and what it mentions in a
nested block and in an argument is not there. -/
def strayRoutine : Routine :=
  ⟨"stray", "Badge", "text", ["input"],
    [.load 0 0 (.field "Badge" "code"),
      .firstNonEmpty 1 0 [[.ifPresent .optional 3 [.load 2 0 (.method "Badge" "code")] []]]
        [.call 0 "join" [.path [.key "k", .field "Badge" "size"], .null]],
      .emit 3 .unchecked]⟩

def badgeSchema : Schema String :=
  ⟨[⟨"Badge", "Badge", [
    ⟨"code", .field, .plain .string, fun r => .string r⟩,
    ⟨"code", .method, (FlaggedTy.plain .int).asOptional, fun r => .int (.ofNat r.length)⟩,
    ⟨"next", .method, (FlaggedTy.plain (.record "Badge")).asNullable, fun _ => .null⟩]⟩]⟩

def badgeFunctions : Functions String := ⟨[⟨"join", 2, .plain .string, fun _ => .string ""⟩]⟩

theorem link_reports_unbound_stray :
    Source.link badgeSchema .empty ⟨"", "Badge", "text"⟩ strayRoutine = .error ⟨"",
      [LinkError.tempOutOfRange 3, .tempOutOfRange 2, .noMember "Badge" "size",
        .noFunction "join" 2, .tempOutOfRange 3].map .ofLink⟩ := by
  have hunbound : strayRoutine.mentions.filter (!·.isBound ⟨badgeSchema, .empty, 1⟩) =
      [.temp 3, .temp 2, .member .field "Badge" "size", .function "join" 2, .temp 3] := by
    decide +kernel
  obtain ⟨hiff, hlist, -⟩ := link_reports_unbound badgeSchema .empty ⟨"", "Badge", "text"⟩
    strayRoutine
  obtain ⟨e, he⟩ := hiff.mpr ⟨.temp 2, by decide +kernel, rfl⟩
  rw [he, hlist e he, show strayRoutine.temps.length = 1 from rfl, hunbound]
  rfl

/-- Whatever a template becomes under whatever settings, everything that it mentions is bound by the
schema and functions it was compiled with, so that it can be linked. -/
theorem routine_always_links {schema : Schema ρ} {functions : Functions ρ} {config : Config}
    {src : Source} {name : String} {r : Routine}
    (h : src.routine schema functions config name = .ok r) :
    (∃ p, src.link schema functions r = .ok p) ∧
      ∀ m ∈ r.mentions, m.isBound ⟨schema, functions, r.temps.length⟩ := by
  obtain ⟨hs, children, ht, hr⟩ := Source.routine_typed h
  obtain ⟨p, hp⟩ := ofTree_links (s := ⟨schema, functions, config.policy, src.input⟩) hs ht hr
  refine ⟨⟨p, mapError_eq_ok.mpr hp⟩, ?_⟩
  rw [← Link.reports_eq_nil_iff]
  have hlink := Program.link_eq schema functions r
  rw [hp] at hlink
  dsimp only at hlink
  split at hlink
  next h => exact List.isEmpty_iff.mp h
  next => cases hlink

def badgeLabel : Source :=
  ⟨"$\x7bcode\x7d/$\x7bcode()\x7d $\x7bjoin(next.code, gone)\x7d" ++
    "$\x7bnext.\x7bcode, \"-\", gone\x7d | code ?? \"none\"\x7d", "Badge", "text"⟩

theorem routine_always_links_badge : ∃ r,
    badgeLabel.routine badgeSchema badgeFunctions { policy := .lenient }
      "label" = .ok r ∧
    (∃ p, badgeLabel.link badgeSchema badgeFunctions r = .ok p) ∧
    ∀ m ∈ r.mentions, m.isBound ⟨badgeSchema, badgeFunctions, r.temps.length⟩ := by
  have hok : (badgeLabel.routine badgeSchema badgeFunctions
      { policy := .lenient } "label").toBool := by
    decide +kernel
  obtain ⟨r, hr⟩ := eq_ok_of_toBool hok
  exact ⟨r, hr, routine_always_links hr⟩

end PathTemplate

import PathTemplate.Proofs.Compiler.Rendering
import PathTemplate.Proofs.Template.Written
import PathTemplate.Proofs.Tree.Trail

namespace PathTemplate

open PathTemplate.Tree PathTemplate.Wire

variable {ρ σ : Type}

/-- A sink that counts the values it takes. -/
structure Counted (σ : Type) where
  sink : σ
  count : Nat

namespace Counted

instance [Sink σ] : Sink (Counted σ) where
  kind := Sink.kind σ
  fresh c := ⟨Sink.fresh c.sink, 0⟩
  accept c v := ⟨Sink.accept c.sink v, c.count + 1⟩
  splice c inner := ⟨Sink.splice c.sink inner.sink, c.count + inner.count⟩
  isEmpty c := Sink.isEmpty c.sink
  bytes c := Sink.bytes c.sink
  reset c := ⟨Sink.reset c.sink, 0⟩
  endRecord force c := ⟨Sink.endRecord force c.sink, c.count⟩

instance [Sink σ] [LawfulSink σ] : LawfulSink (Counted σ) where
  splice_fresh s t := by simp [Sink.splice, Sink.fresh, LawfulSink.splice_fresh]
  splice_assoc s t u := by simp [Sink.splice, LawfulSink.splice_assoc, Nat.add_assoc]
  accept_eq_splice s v := by
    simp only [Sink.accept, Sink.splice, Sink.fresh, Nat.zero_add]
    rw [← LawfulSink.accept_eq_splice]
  fresh_fresh s := by simp [Sink.fresh, LawfulSink.fresh_fresh]
  fresh_splice s t := by simp [Sink.fresh, Sink.splice, LawfulSink.fresh_splice]
  fresh_accept s v := by simp [Sink.fresh, Sink.accept, LawfulSink.fresh_accept]
  reset_eq_fresh s := by simp [Sink.fresh, Sink.reset, LawfulSink.reset_eq_fresh]

end Counted

/-- What may become of a whole number: the same number in any width, the number nearest to it that
floats have, or its digits. -/
def Constant.Keeps (n : Int64) : Constant → Prop
  | .byte m => m.toInt = n.toInt
  | .short m => m.toInt = n.toInt
  | .int m => m.toInt = n.toInt
  | .long m => m = n
  | .float x => x = .ofInt n.toInt
  | .double x => x = .ofInt n.toInt
  | .string s => s = toString n.toInt
  | _ => False

section

variable {kind : LiteralKind} {ty : Ty} {k : Constant}

theorem constantFor?_hasShape (isA : ρ → String → Prop) (h : constantFor? kind ty = some k)
    (hu : ty ≠ .unknown) : HasShape isA ty (k.value : Value ρ) := by
  unfold constantFor? at h
  split at h
  case h_1 => exact absurd rfl hu
  all_goals first
    | (split at h <;> cases h <;> exact ⟨_, rfl⟩)
    | (cases h; exact ⟨_, rfl⟩)
    | cases h

theorem constantFor?_keeps {n : Int64} (h : constantFor? (.number (.int n)) ty = some k) :
    k.Keeps n := by
  cases ty with
  | byte =>
    simp only [constantFor?] at h
    split at h <;> cases h
    next hn => exact Int8.toInt_ofInt_of_le (by omega) (by omega)
  | short =>
    simp only [constantFor?] at h
    split at h <;> cases h
    next hn => exact Int16.toInt_ofInt_of_le (by omega) (by omega)
  | int =>
    simp only [constantFor?] at h
    split at h <;> cases h
    next hn => exact Int32.toInt_ofInt_of_le (by omega) (by omega)
  | _ => cases h <;> rfl

theorem encodeStringCut_head (s : String) :
    (encodeStringCut s).1.head? = some Tag.string.toByte := by
  simp only [encodeStringCut]
  split <;> rfl

theorem constantFor?_tag (isA : ρ → String → Prop) (h : constantFor? kind ty = some k)
    (hu : ty ≠ .unknown) : ∃ tag : Tag, ∀ v : Value ρ, HasShape isA ty v →
      (BinarySink.encode v).head? = some tag.toByte := by
  have hk := constantFor?_hasShape isA h hu
  cases ty with
  | bool => exact ⟨.boolean, by rintro v ⟨b, rfl⟩; rfl⟩
  | byte => exact ⟨.byte, by rintro v ⟨n, rfl⟩; rfl⟩
  | short => exact ⟨.short, by rintro v ⟨n, rfl⟩; rfl⟩
  | int => exact ⟨.integer, by rintro v ⟨n, rfl⟩; rfl⟩
  | long => exact ⟨.long, by rintro v ⟨n, rfl⟩; rfl⟩
  | float => exact ⟨.float, by rintro v ⟨x, rfl⟩; rfl⟩
  | double => exact ⟨.double, by rintro v ⟨x, rfl⟩; rfl⟩
  | string | enum => exact ⟨.string, by rintro v ⟨s, rfl⟩; exact encodeStringCut_head s⟩
  | unknown => exact absurd rfl hu
  -- The other types have no constants at all.
  | bytes | dateTime | date =>
    obtain ⟨x, hk⟩ := hk
    cases k <;> cases hk
  | list | record =>
    obtain ⟨x, hk, -⟩ := hk
    cases k <;> cases hk
  | map =>
    obtain ⟨size, lookup, hk, -⟩ := hk
    cases k <;> cases hk

end

theorem plainSteps?_isSome {steps : List Step} (h : ∀ s ∈ steps, s.isJoin = false) :
    ∃ plain, plainSteps? steps = some plain := by
  induction steps with
  | nil => exact ⟨[], rfl⟩
  | cons step rest ih =>
    obtain ⟨hstep, hrest⟩ := List.forall_mem_cons.mp h
    obtain ⟨plain, hplain⟩ := ih hrest
    cases step with
    | join => simp [Step.isJoin] at hstep
    | _ => simp [plainSteps?, hplain]

theorem Chain.plainSteps {c : Chain} {P : Chain → Prop} (hfits : c.FitsOver P)
    (hjoin : c.join? = none) : ∃ plain, plainSteps? c.steps = some plain :=
  plainSteps?_isSome (hfits.not_isJoin hjoin)

/-- A template of one chain that does not end in a join, with a constant default, hands over one
value for every input. It is the last value of the trail of the chain if none on the way is absent,
and otherwise the default in the type of the trail's end, which looks the same on the wire unless the
type is unknown. A chain that leads nowhere always gives way to the default as it is written. -/
theorem value_or_default {types : RecordTypes ρ} {schema : Schema ρ} {functions : Functions ρ}
    {config : Config} {src : Source} {name : String} {p : Program ρ} {c : Chain} {l : Literal}
    {span : Span} {input : ρ} (hc : Conforming types schema functions .empty)
    (hparse : Template.parse src.template = .ok ⟨[.expr (.mk [c] (some l) span)]⟩)
    (hjoin : c.join? = none) (hl : ∀ name, l.kind ≠ .param name)
    (hp : src.program schema functions config name = .ok p)
    (hin : types.IsA schema input src.input) (params : Params ρ) :
    ∃ v : Value ρ,
      (∀ {σ : Type} [Sink σ] [LawfulSink σ] (s : σ),
        p.run input params s = Sink.accept s v ∧
          p.run input params (Counted.mk s 0) = ⟨Sink.accept s v, 1⟩) ∧
      match trail? ⟨schema, functions, config.policy, src.input⟩ ⟨input, params⟩ c with
      | none => config.policy = .lenient ∧ v = (naturalConstant l.kind).value
      | some t => ∃ k, constantFor? l.kind t.last.ty.ty = some k ∧
        v = (if t.isPresent then t.last.value else k.value) ∧
        (t.last.ty.ty ≠ .unknown →
          HasShape (types.IsA schema) t.last.ty.ty v ∧
          HasShape (types.IsA schema) t.last.ty.ty (k.value : Value ρ) ∧
          ∃ tag : Tag, (BinarySink.encode v).head? = some tag.toByte ∧
            (BinarySink.encode (k.value : Value ρ)).head? = some tag.toByte) ∧
        ∀ n, l.kind = .number (.int n) → k.Keeps n := by
  obtain ⟨children, hres⟩ := Source.resolved_of_program hp
  obtain ⟨-, hrun⟩ := Source.program_renders hres hp
  obtain ⟨t, ht, -, hsegs⟩ := Source.resolved_eq_ok.mp hres
  obtain rfl : t = _ := Except.ok.inj (ht.symm.trans hparse)
  simp only [segments, expr, bind_eq_ok, pure_eq_ok] at hsegs
  obtain ⟨n, ⟨path, hchain, hfinish⟩, more, hmore, rfl⟩ := hsegs
  cases hmore
  have hfits : c.Within Template.maxNesting :=
    (Template.parse_fits hparse).1.2.1 c List.mem_cons_self
  obtain ⟨plain, hplain⟩ := Chain.plainSteps hfits hjoin
  have hends : path.Ends (types.IsA schema) ⟨schema, functions, config.policy, src.input⟩
      ⟨input, params⟩ (.plain (.record src.input)) (.record input)
      (trail? ⟨schema, functions, config.policy, src.input⟩ ⟨input, params⟩ c) :=
    chain_ends hc hin hplain hchain
  -- What the nodes do in every sink, they do in one that counts.
  have honce : ∀ v : Value ρ,
      (∀ {σ : Type} [Sink σ] (s : σ), walk ⟨schema, functions, ⟨input, params⟩⟩
        (.plain (.record src.input)) (.record input) n s = Sink.accept s v) →
      ∀ {σ : Type} [Sink σ] [LawfulSink σ] (s : σ), p.run input params s = Sink.accept s v ∧
        p.run input params (Counted.mk s 0) = ⟨Sink.accept s v, 1⟩ := by
    intro v hv σ _ _ s
    simp only [hrun, walkAll, hv]
    exact ⟨trivial, rfl⟩
  cases htrail : trail? ⟨schema, functions, config.policy, src.input⟩ ⟨input, params⟩ c with
  | none =>
    rw [htrail] at hends
    exact ⟨_, honce _ fun s => hends.2.finish_writes hl hfinish s, hends.1, rfl⟩
  | some t =>
    rw [htrail] at hends
    obtain ⟨k, hk, hshape, hwrites⟩ := Path.Tracks.finish_writes hends hl hfinish
    refine ⟨_, honce _ hwrites, k, hk, rfl, fun hu => ?_, fun n hn => ?_⟩
    · have hkshape := constantFor?_hasShape (types.IsA schema) hk hu
      have hv : HasShape (types.IsA schema) t.last.ty.ty
          (if t.isPresent then t.last.value else k.value) := by
        split
        next hpresent => exact hshape hpresent
        next => exact hkshape
      obtain ⟨tag, htag⟩ := constantFor?_tag (types.IsA schema) hk hu
      exact ⟨hv, hkshape, tag, htag _ hv, htag _ hkshape⟩
    · exact constantFor?_keeps (hn ▸ hk)

inductive Shop where
  | order (customer : Option (List (String × Int32)))
  | customer (points : List (String × Int32))

namespace Shop

def types : RecordTypes Shop where
  id
    | .order _ => "Order"
    | .customer _ => "Customer"
  name
    | .order _ => "Order"
    | .customer _ => "Customer"

def customer? : Shop → Value Shop
  | .order (some points) => .record (.customer points)
  | _ => .null

def points : Shop → Value Shop
  | .customer points => .map points.length fun key => ((points.lookup key).map .int).getD .null
  | _ => .null

def schema : Schema Shop :=
  ⟨[⟨"Order", "Order", [⟨"customer", .field, ⟨.record "Customer", true, true⟩, customer?⟩]⟩,
    ⟨"Customer", "Customer", [⟨"points", .method, .plain (.map .int), points⟩]⟩]⟩

theorem schema_conforming : Conforming types schema .empty .empty where
  members := by
    intro shape hshape m hm r hr
    simp only [schema, List.mem_cons, List.not_mem_nil, or_false] at hshape
    rcases hshape with rfl | rfl
    · obtain rfl := List.mem_singleton.mp hm
      cases r with
      | order customer =>
        cases customer with
        | none => rfl
        | some points => exact ⟨_, rfl, rfl⟩
      | customer points => rfl
    · obtain rfl := List.mem_singleton.mp hm
      cases r with
      | order customer => simp [types] at hr
      | customer points =>
        refine ⟨_, _, rfl, fun key => ?_⟩
        cases hkey : points.lookup key with
        | none => exact .inl rfl
        | some n => exact .inr ⟨n, rfl⟩
  functions := by simp [Functions.empty]
  params := by simp [Params.get?, Params.empty]

def level : Source := ⟨"$\x7bcustomer.points()['level'] + 1 as short ?? 7\x7d", "Order", "binary"⟩

def short? (input : Shop) (c : Chain) (l : Literal) : Option Int16 :=
  (trail? ⟨schema, .empty, .strict, level.input⟩ ⟨input, .empty⟩ c).bind fun t =>
    (constantFor? l.kind t.last.ty.ty).bind fun k =>
      match (if t.isPresent then t.last.value else k.value) with
      | .short n => some n
      | _ => none

end Shop

open Shop in
theorem value_or_default_level : ∃ p,
    level.program schema .empty { policy := .strict } "level" = .ok p ∧
    ∀ s : BinarySink,
      p.run (.order (some [("level", 41)])) .empty (Counted.mk s 0) =
        ⟨Sink.accept s (.short 42 : Value Shop), 1⟩ ∧
      p.run (.order (some [("visits", 3)])) .empty (Counted.mk s 0) =
        ⟨Sink.accept s (.short 7 : Value Shop), 1⟩ := by
  have hok : (level.program schema .empty { policy := .strict } "level").toBool := by
    decide +kernel
  obtain ⟨p, hp⟩ := eq_ok_of_toBool hok
  have hread : ((Template.parse level.template).toOption.bind Template.defaulted?).any
      fun parts => parts.1.length == 1 && parts.2.kind == .number (.int 7) &&
        parts.1.all fun c => c.join?.isNone &&
          short? (.order (some [("level", 41)])) c parts.2 == some 42 &&
          short? (.order (some [("visits", 3)])) c parts.2 == some 7 := by
    decide +kernel
  obtain ⟨⟨cs, l⟩, hparts, hread⟩ := (Option.any_eq_true _ _).mp hread
  obtain ⟨span, hparse⟩ := Template.parse_defaulted hparts
  simp only [Bool.and_eq_true, beq_iff_eq] at hread
  obtain ⟨⟨hlen, hl⟩, hread⟩ := hread
  obtain ⟨c, rfl⟩ := List.length_eq_one_iff.mp hlen
  simp only [List.all_cons, List.all_nil, Bool.and_true, Bool.and_eq_true, beq_iff_eq,
    Option.isNone_iff_eq_none] at hread
  obtain ⟨⟨hjoin, hlevel⟩, hvisits⟩ := hread
  have hshort : ∀ customer n, short? (.order customer) c l = some n → ∀ s : BinarySink,
      p.run (.order customer) .empty (Counted.mk s 0) =
        ⟨Sink.accept s (.short n : Value Shop), 1⟩ := by
    intro customer n hn s
    have hin : types.IsA schema (.order customer) level.input := rfl
    obtain ⟨v, hrun, hv⟩ := value_or_default schema_conforming hparse hjoin (by simp [hl]) hp hin
      .empty
    obtain ⟨t, htrail, hn⟩ := Option.bind_eq_some_iff.mp hn
    obtain ⟨k, hk, hn⟩ := Option.bind_eq_some_iff.mp hn
    simp only [htrail] at hv
    obtain ⟨k', hk', rfl, -⟩ := hv
    obtain rfl : k = k' := Option.some.inj (hk.symm.trans hk')
    rw [(hrun s).2]
    split at hn
    next m hm =>
      cases hn
      rw [hm]
    next => cases hn
  exact ⟨p, hp, fun s => ⟨hshort _ _ hlevel s, hshort _ _ hvisits s⟩⟩

end PathTemplate

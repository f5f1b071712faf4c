import PathTemplate.Proofs.Compiler.Export
import PathTemplate.Proofs.Compiler.Rendering
import PathTemplate.Proofs.Template.Concatenation
import PathTemplate.Proofs.Tree.Places

namespace PathTemplate

open PathTemplate.Tree PathTemplate.Routine

variable {ρ : Type}

namespace Tree

open Template

variable {s : Scope ρ} {a b : List Segment} {x y : List Node}

theorem segments_append {ns : List Node} : segments s (a ++ b) = .ok ns ↔
    ∃ x y, segments s a = .ok x ∧ segments s b = .ok y ∧ x ++ y = ns := by
  have happend : segments s (a ++ b) = do
      let x ← segments s a
      let y ← segments s b
      return x ++ y := by
    induction a with
    | nil =>
      cases hb : segments s b <;> simp [segments, hb, bind, Except.bind, pure, Except.pure]
    | cons seg a ih =>
      cases seg <;> simp [segments, ih]
  simp only [happend, bind_eq_ok, pure_eq_ok, exists_and_left]

theorem segments_shifted (n : Nat) (h : segments s a = .ok x) :
    ∃ x', segments s (a.map (Segment.shifted n)) = .ok x' ∧
      Node.unplacedAll x' = Node.unplacedAll x := by
  have hbare := (segments_mirrors s a).eq_ok h
  have hsame : (a.map (Segment.shifted n)).map Segment.unplaced = a.map Segment.unplaced := by
    simp [Segment.unplaced_shifted]
  rw [← hsame] at hbare
  exact (segments_mirrors s (a.map (Segment.shifted n))).exists_ok hbare

/-- Nodes that write into a text sink what two lists of nodes write one after the other, and nest no
deeper. -/
structure Joins (x y ns : List Node) : Prop where
  tooDeep : ∀ max, (tooDeepAll? max 0 ns).isSome =
    ((tooDeepAll? max 0 x).isSome || (tooDeepAll? max 0 y).isSome)
  walk : ∀ {ρ : Type} (w : World ρ) (cur : FlaggedTy) (v : Value ρ) (s : TextSink),
    walkAll w cur v ns s = walkAll w cur v y (walkAll w cur v x s)

theorem tooDeepAll?_literal (max : Nat) (text : String) (span : Span) (ns : List Node) :
    tooDeepAll? max 0 (literalNode text span :: ns) = tooDeepAll? max 0 ns := by
  simp [tooDeepAll?, literalNode, Node.leaf, tooDeep?]

/-- A text sink does not see where one text ends and the next one begins. -/
theorem walkAll_literal_append (w : World ρ) (cur : FlaggedTy) (v : Value ρ) (text text' : String)
    (span span' span'' : Span) (ns : List Node) (sink : TextSink) :
    walkAll w cur v (literalNode (text ++ text') span'' :: ns) sink =
      walkAll w cur v (literalNode text span :: literalNode text' span' :: ns) sink := by
  simp [walkAll, literalNode, Node.leaf, walk, World.computed?, Sink.accept, TextSink.append,
    TextFormat.text, TextFormat.scalar, Value.text?, String.append_assoc]

theorem Joins.append (x y : List Node) : Joins x y (x ++ y) where
  tooDeep max := by rw [tooDeepAll?_append, Option.isSome_or]
  walk w cur v s := walkAll_append w cur v x y s

theorem Joins.replace {x y y' ns : List Node} (h : Joins x y ns)
    (hsame : Node.unplacedAll y = Node.unplacedAll y') : Joins x y' ns where
  tooDeep max := by
    rw [h.tooDeep, ← tooDeepAll?_unplaced max 0 y, hsame, tooDeepAll?_unplaced]
  walk w cur v s := by
    rw [h.walk, ← walkAll_unplaced w cur v y, hsame, walkAll_unplaced]

theorem segments_fuse (ha : segments s a = .ok x) (hb : segments s b = .ok y) :
    ∃ ns, segments s (fuse a b) = .ok ns ∧ Joins x y ns := by
  unfold fuse
  split
  next text span text' span' rest hlast =>
    obtain ⟨a', rfl⟩ := List.getLast?_eq_some_iff.mp hlast
    obtain ⟨x', last, hx', hlast, rfl⟩ := segments_append.mp ha
    cases hlast
    obtain ⟨y', hy', hb⟩ := bind_eq_ok.mp hb
    cases hb
    rw [List.dropLast_concat]
    refine ⟨x' ++ literalNode (text ++ text') _ :: y',
      segments_append.mpr ⟨x', _, hx', bind_eq_ok.mpr ⟨y', hy', rfl⟩, rfl⟩, ?_, ?_⟩
    · intro max
      have hnil : tooDeepAll? max 0 [] = none := rfl
      simp only [tooDeepAll?_append, tooDeepAll?_literal, hnil, Option.or_none, Option.isSome_or]
    · intro ρ w cur v sink
      simp only [walkAll_append, walkAll_literal_append w cur v text text' span span']
      rfl
  next => exact ⟨x ++ y, segments_append.mpr ⟨x, y, ha, hb, rfl⟩, .append x y⟩

end Tree

namespace Source

variable {schema : Schema ρ} {functions : Functions ρ} {t t' input sink : String}
  {children children' : List Node}

theorem resolved_append (policy : Policy) (hlast : t.toList.getLast? ≠ some '$')
    (h : resolved schema functions policy ⟨t, input, sink⟩ = .ok (.root input sink children))
    (h' : resolved schema functions policy ⟨t', input, sink⟩ = .ok (.root input sink children')) :
    ∃ ns, resolved schema functions policy ⟨t ++ t', input, sink⟩ = .ok (.root input sink ns) ∧
      Joins children children' ns := by
  obtain ⟨u, hu, hs, hsegs⟩ := resolved_eq_ok.mp h
  obtain ⟨u', hu', -, hsegs'⟩ := resolved_eq_ok.mp h'
  obtain ⟨x, hx, hsame⟩ := segments_shifted (Text.byteLength t.toList) hsegs'
  obtain ⟨ns, hns, hjoins⟩ := segments_fuse hsegs hx
  have hparse := Template.parse_append hu hlast t'
  rw [hu'] at hparse
  exact ⟨ns, resolved_eq_ok.mpr ⟨_, hparse, hs, hns⟩, hjoins.replace hsame⟩

theorem program_append {config : Config} {o o' : Bool} {name name' : String} {p p' : Program ρ}
    (hlast : t.toList.getLast? ≠ some '$')
    (hp : program schema functions { config with optimize := o } name ⟨t, input, sink⟩ = .ok p)
    (hp' : program schema functions { config with optimize := o' } name' ⟨t', input, sink⟩ =
      .ok p')
    (merge : Bool) (name'' : String) :
    ∃ both, program schema functions { config with optimize := merge } name''
        ⟨t ++ t', input, sink⟩ = .ok both ∧
      ∀ (record : ρ) (params : Params ρ) (s : TextSink),
        both.run record params s = p'.run record params (p.run record params s) := by
  obtain ⟨children, hres⟩ := resolved_of_program hp
  obtain ⟨children', hres'⟩ := resolved_of_program hp'
  obtain ⟨hdeep, hrun⟩ := program_renders hres hp
  obtain ⟨hdeep', hrun'⟩ := program_renders hres' hp'
  obtain ⟨ns, hjoined, hjoins⟩ := resolved_append config.policy hlast hres hres'
  have hshallow : tooDeepAll? config.maxDepth 0 ns = none := by
    have hsome := hjoins.tooDeep config.maxDepth
    rw [hdeep, hdeep'] at hsome
    simpa using hsome
  obtain ⟨both, hboth⟩ : ∃ both, program schema functions { config with optimize := merge } name''
      ⟨t ++ t', input, sink⟩ = .ok both :=
    program_of_resolved (by exact hjoined) (by exact hshallow) name''
  obtain ⟨-, hrun''⟩ := program_renders (by exact hjoined) hboth
  refine ⟨both, hboth, fun record params s => ?_⟩
  rw [hrun'', hjoins.walk, ← hrun record params s, ← hrun' record params (p.run record params s)]

theorem program_appends {config : Config} {src : Source} {name : String} {p : Program ρ}
    (h : src.program schema functions config name = .ok p) (record : ρ) (params : Params ρ) :
    Appends (fun s : TextSink => p.run record params s) := by
  obtain ⟨r, hr, hp⟩ := bind_eq_ok.mp h
  exact run_appends hr (mapError_eq_ok.mp hp) record params

end Source

theorem TextSink.content_append {f g : TextSink → TextSink} (hf : Appends f) (hg : Appends g)
    (format : TextFormat) :
    (g (f (ofFormat format))).content =
      (f (ofFormat format)).content ++ (g (ofFormat format)).content := by
  have hsettings : Sink.fresh (f (ofFormat format)) = ofFormat format :=
    hf.settings (ofFormat format)
  rw [hg.apart, hsettings]
  rfl

/-- Templates one behind the other. When the first one can be read and does not end with a dollar
sign, the two together are read as the first one and then the second one, moved behind it, also when
that is an error. When both become programs, so do they together, whether paths are merged or not,
and a text of this program is the text of the first and then that of the second. -/
theorem template_append (schema : Schema ρ) (functions : Functions ρ) (config : Config)
    {first : String} {t : Template} (hparse : Template.parse first = .ok t)
    (hlast : first.toList.getLast? ≠ some '$') (second : String) :
    (Template.parse (first ++ second) =
      match Template.parse second with
      | .ok t' => .ok ⟨Template.fuse t.segments
        (t'.segments.map (Segment.shifted (Text.byteLength first.toList)))⟩
      | .error e => .error (e.shifted (Text.byteLength first.toList))) ∧
    ∀ (input sink : String) (o o' : Bool) (name name' : String) (p p' : Program ρ),
      Source.program schema functions { config with optimize := o } name ⟨first, input, sink⟩ =
        .ok p →
      Source.program schema functions { config with optimize := o' } name' ⟨second, input, sink⟩ =
        .ok p' →
      ∀ (merge : Bool) (name'' : String), ∃ both,
        Source.program schema functions { config with optimize := merge } name''
          ⟨first ++ second, input, sink⟩ = .ok both ∧
        ∀ (record : ρ) (params : Params ρ) (format : TextFormat),
          (both.run record params (TextSink.ofFormat format)).content =
            (p.run record params (TextSink.ofFormat format)).content ++
              (p'.run record params (TextSink.ofFormat format)).content := by
  refine ⟨Template.parse_append hparse hlast second, ?_⟩
  intro input sink o o' name name' p p' hp hp' merge name''
  obtain ⟨both, hboth, hrun⟩ := Source.program_append hlast hp hp' merge name''
  refine ⟨both, hboth, fun record params format => ?_⟩
  have happend := Source.program_appends hp record params
  have happend' := Source.program_appends hp' record params
  rw [hrun]
  exact TextSink.content_append happend happend' format

def residentSchema : Schema (Option (String × String)) :=
  ⟨[⟨"Person", "Person", [⟨"address", .field, ⟨.record "Address", true, false⟩,
      fun r => if r.isSome then .record r else .null⟩]⟩,
    ⟨"Address", "Address", [⟨"city", .field, .plain .string, fun r => .string (r.elim "" (·.1))⟩,
      ⟨"zip", .field, .plain .string, fun r => .string (r.elim "" (·.2))⟩]⟩]⟩

def residentProgram (optimize : Bool) (template : String) :
    Except CompileError (Program (Option (String × String))) :=
  Source.program residentSchema .empty { policy := .strict, optimize } "line"
    ⟨template, "Person", "text"⟩

def residentText (p : Program (Option (String × String))) : String :=
  (p.run (some ("Köln", "50667")) .empty (TextSink.ofFormat .standard)).content

/-- The comma and the space at the seam become one text, and the paths on both sides of it are
merged. The error in the last template is behind the first one, whose sign for the euro has three
bytes. -/
theorem template_append_resident :
    (∃ p p' both, residentProgram false "€ $\x7baddress.city\x7d," = .ok p ∧
      residentProgram true " $\x7baddress.zip\x7d!" = .ok p' ∧
      residentProgram true ("€ $\x7baddress.city\x7d," ++ " $\x7baddress.zip\x7d!") = .ok both ∧
      residentText p = "€ Köln," ∧ residentText p' = " 50667!" ∧
      residentText both = "€ Köln, 50667!") ∧
    Template.parse ("€ $\x7baddress.city\x7d," ++ "$\x7bx") =
      .error ⟨.unterminatedExpression, ⟨20, 23⟩⟩ := by
  have hread : (Template.parse "€ $\x7baddress.city\x7d,").toBool := by decide +kernel
  obtain ⟨t, hparse⟩ := eq_ok_of_toBool hread
  have happend := template_append residentSchema .empty { policy := .strict } hparse
    (by decide +kernel)
  have htext : (residentProgram false "€ $\x7baddress.city\x7d,").toOption.map residentText =
      some "€ Köln," := by decide +kernel
  have htext' : (residentProgram true " $\x7baddress.zip\x7d!").toOption.map residentText =
      some " 50667!" := by decide +kernel
  obtain ⟨p, hp, hp_text⟩ := Option.map_eq_some_iff.mp htext
  obtain ⟨p', hp', hp'_text⟩ := Option.map_eq_some_iff.mp htext'
  have hp := eq_ok_of_toOption hp
  have hp' := eq_ok_of_toOption hp'
  constructor
  · obtain ⟨both, hboth, hwrites⟩ := (happend _).2 _ _ _ _ _ _ _ _ hp hp' true "line"
    refine ⟨p, p', both, hp, hp', hboth, hp_text, hp'_text, (hwrites _ _ _).trans ?_⟩
    exact (congrArg₂ (· ++ ·) hp_text hp'_text).trans (by decide +kernel)
  · have hopen : (Template.parse "$\x7bx").map (fun _ => ()) =
        .error ⟨.unterminatedExpression, ⟨0, 3⟩⟩ := by decide +kernel
    rw [(happend _).1, eq_error_of_map hopen]
    rfl

end PathTemplate

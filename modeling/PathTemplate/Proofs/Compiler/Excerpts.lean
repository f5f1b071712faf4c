import PathTemplate.Proofs.Compiler.Stages
import PathTemplate.Proofs.Tree.Located
import PathTemplate.Proofs.Tree.Normal

/-!
The excerpts of diagnostics. Cutting the template at byte offsets, as the excerpt of a diagnostic
does, never goes through a character, since all diagnostics with a place have it from the template;
and the excerpt shows the line in which that place starts, with its part of the line underlined.
-/

namespace PathTemplate

theorem Text.splitBytes_of_le {n : Nat} {cs : List Char} (h : byteLength cs ≤ n) :
    splitBytes n cs = (cs, []) := by
  induction cs generalizing n with
  | nil => cases n <;> rfl
  | cons c cs ih =>
    rw [byteLength_cons] at h
    obtain ⟨k, rfl⟩ : ∃ k, n = k + 1 := ⟨n - 1, by have := c.utf8Size_pos; omega⟩
    rw [splitBytes, if_pos (by omega), ih (by omega)]

theorem Text.sliceBytes_of_eq {text a b c : List Char} {m n : Nat} (htext : text = a ++ b ++ c)
    (hm : m = byteLength a) (hn : n = byteLength (a ++ b)) : sliceBytes m n text = some b := by
  rw [htext, hm, hn, byteLength_append, sliceBytes_append]

theorem Text.IsBoundary.between {text : List Char} {m n : Nat} (hm : IsBoundary text m)
    (hn : IsBoundary text n) (hle : m ≤ n) :
    ∃ front middle back, text = front ++ middle ++ back ∧ byteLength front = m ∧
      byteLength (front ++ middle) = n := by
  obtain ⟨a, b, rfl, rfl⟩ := hm
  obtain ⟨a', b', hsplit, rfl⟩ := hn
  rcases List.append_eq_append_iff.mp hsplit with ⟨mid, rfl, rfl⟩ | ⟨mid, rfl, rfl⟩
  · exact ⟨a, mid, b', by rw [List.append_assoc], rfl, rfl⟩
  · have hnil : mid = [] := byteLength_eq_zero.mp (by rw [byteLength_append] at hle; omega)
    subst hnil
    exact ⟨a', [], b, by simp, by simp, by simp⟩

namespace Diagnostic

def startOfLine (cs : List Char) : Nat := Text.byteLength (cs.reverse.dropWhile (· ≠ '\n')).reverse

def clamp? (n lower upper : Nat) : Option Nat :=
  if lower ≤ upper then some (max lower (min n upper)) else none

def picture (number : Nat) (line : List Char) (column width : Nat) : String :=
  let gutter := toString number
  let pad := spaces gutter.length
  "\n" ++ pad ++ " |\n" ++ gutter ++ " | " ++ String.ofList line ++ "\n" ++
    pad ++ " | " ++ spaces column ++ String.ofList (List.replicate width '^')

/-- The excerpt as it is cut out of the source by byte offsets. There is none when a cut goes
through a character or the bounds for the end of the carets are not in order. -/
def excerpt? (source : String) (s : Span) : Option String := do
  let text := source.toList
  let length := Text.byteLength text
  let start := min s.start length
  let lineStart := startOfLine (← Text.sliceBytes 0 start text)
  let lineEnd := start +
    Text.byteLength ((← Text.sliceBytes start length text).takeWhile (· ≠ '\n'))
  let number := (← Text.sliceBytes 0 lineStart text).count '\n' + 1
  let line ← Text.sliceBytes lineStart lineEnd text
  let column := (← Text.sliceBytes lineStart start text).length
  let stop ← clamp? s.stop start lineEnd
  let width := max 1 (← Text.sliceBytes start stop text).length
  return picture number line column width

def render? (source : String) (d : Diagnostic) : Option String :=
  let head := "error[" ++ d.stage.name ++ "]: " ++ d.message
  match d.span with
  | some s => if s = .nowhere then some head else (excerpt? source s).map (head ++ ·)
  | none => some head

/-- A text around a place: what is above and below the line in which the place starts, and the line
before the place, its part in the line, and the rest of the line. -/
structure Around (source : String) (s : Span) (above before covered rest below : List Char) :
    Prop where
  text : source.toList = above ++ before ++ covered ++ rest ++ below
  lineStart : above = [] ∨ above.getLast? = some '\n'
  line : '\n' ∉ before ++ covered ++ rest
  lineEnd : below = [] ∨ below.head? = some '\n'
  start : Text.byteLength (above ++ before) = s.start
  stop : Text.byteLength (above ++ before ++ covered) =
    min s.stop (Text.byteLength (above ++ before ++ covered ++ rest))

section Lines

variable {cs : List Char}

theorem takeWhile_line {below : List Char} (h : '\n' ∉ cs)
    (hb : below = [] ∨ below.head? = some '\n') :
    (cs ++ below).takeWhile (· ≠ '\n') = cs := by
  have hcs : ∀ x ∈ cs, decide (x ≠ '\n') = true := by
    rintro x hx
    rw [decide_eq_true_eq]
    rintro rfl
    exact h hx
  rw [List.takeWhile_append_of_pos hcs]
  rcases hb with rfl | hb
  · simp
  · obtain ⟨rest, rfl⟩ := List.head?_eq_some_iff.mp hb
    simp

theorem dropWhile_line {below : List Char} (h : '\n' ∉ cs)
    (hb : below = [] ∨ below.head? = some '\n') :
    (cs ++ below).dropWhile (· ≠ '\n') = below := by
  have hsplit := (cs ++ below).takeWhile_append_dropWhile (p := (· ≠ '\n'))
  rw [takeWhile_line h hb] at hsplit
  exact List.append_cancel_left hsplit

theorem not_mem_takeWhile_line (cs : List Char) : '\n' ∉ cs.takeWhile (· ≠ '\n') := by
  intro h
  simpa using List.mem_takeWhile_imp h

theorem dropWhile_line_cases (cs : List Char) :
    cs.dropWhile (· ≠ '\n') = [] ∨ (cs.dropWhile (· ≠ '\n')).head? = some '\n' := by
  cases h : cs.dropWhile (· ≠ '\n') with
  | nil => exact .inl rfl
  | cons x rest =>
    have hx := List.head?_dropWhile_not (· ≠ '\n') cs
    simp only [h, List.head?_cons] at hx
    exact .inr (by simpa using hx)

end Lines

variable {source : String} {s : Span}

/-- Every place starts in some line. -/
theorem exists_around (h : s.Inside source) :
    ∃ above before covered rest below, Around source s above before covered rest below := by
  obtain ⟨front, middle, back, htext, hstart, hstop⟩ := h.start.between h.stop h.ordered
  obtain ⟨above, before, hfront, habove, hbefore⟩ : ∃ above before, front = above ++ before ∧
      (above = [] ∨ above.getLast? = some '\n') ∧ '\n' ∉ before := by
    refine ⟨(front.reverse.dropWhile (· ≠ '\n')).reverse,
      (front.reverse.takeWhile (· ≠ '\n')).reverse, ?_, ?_, ?_⟩
    · rw [← List.reverse_append, List.takeWhile_append_dropWhile, List.reverse_reverse]
    · rw [List.reverse_eq_nil_iff, List.getLast?_reverse]
      exact dropWhile_line_cases _
    · rw [List.mem_reverse]
      exact not_mem_takeWhile_line _
  subst hfront
  have hmiddle := middle.takeWhile_append_dropWhile (p := (· ≠ '\n'))
  have hcovered := not_mem_takeWhile_line middle
  rcases dropWhile_line_cases middle with hnil | hbreak
  -- The place ends in the line.
  · rw [hnil, List.append_nil] at hmiddle
    rw [hmiddle] at hcovered
    have hback := back.takeWhile_append_dropWhile (p := (· ≠ '\n'))
    refine ⟨above, before, middle, back.takeWhile (· ≠ '\n'), back.dropWhile (· ≠ '\n'), ?_⟩
    refine ⟨?_, habove, ?_, dropWhile_line_cases _, hstart, ?_⟩
    · rw [htext, List.append_assoc _ (back.takeWhile _), hback]
    · simp only [List.mem_append, not_or]
      exact ⟨⟨hbefore, hcovered⟩, not_mem_takeWhile_line _⟩
    · rw [Text.byteLength_append _ (back.takeWhile _), hstop]
      omega
  -- The place goes on behind the line.
  · refine ⟨above, before, middle.takeWhile (· ≠ '\n'), [],
      middle.dropWhile (· ≠ '\n') ++ back, ?_⟩
    have hlength := congrArg Text.byteLength hmiddle
    refine ⟨?_, habove, ?_, .inr ?_, hstart, ?_⟩
    · rw [htext]
      conv_lhs => rw [← hmiddle]
      simp only [List.append_assoc, List.append_nil]
    · simp only [List.append_nil, List.mem_append, not_or]
      exact ⟨hbefore, hcovered⟩
    · obtain ⟨rest, hrest⟩ := List.head?_eq_some_iff.mp hbreak
      rw [hrest, List.cons_append, List.head?_cons]
    · simp only [Text.byteLength_append] at hlength hstop ⊢
      simp only [Text.byteLength_nil]
      omega

namespace Around

variable {above before covered rest below : List Char}
  (h : Around source s above before covered rest below)

include h

theorem splitBytes_start :
    Text.splitBytes s.start source.toList = (above ++ before, covered ++ rest ++ below) := by
  have hcut := Text.splitBytes_append (above ++ before) (covered ++ rest ++ below)
  rw [h.start] at hcut
  rw [h.text, ← hcut]
  simp

theorem lineAt_eq : lineAt source.toList s.start =
    ⟨above.count '\n' + 1, before, covered ++ rest⟩ := by
  have hline := h.line
  simp only [List.mem_append, not_or] at hline
  obtain ⟨⟨hbefore, hcovered⟩, hrest⟩ := hline
  have hfirst : (above ++ before).reverse.takeWhile (· ≠ '\n') = before.reverse := by
    rw [List.reverse_append]
    refine takeWhile_line (by rwa [List.mem_reverse]) ?_
    rw [List.reverse_eq_nil_iff, List.head?_reverse]
    exact h.lineStart
  have hlast : (covered ++ rest ++ below).takeWhile (· ≠ '\n') = covered ++ rest :=
    takeWhile_line (by simp [hcovered, hrest]) h.lineEnd
  unfold lineAt
  rw [h.splitBytes_start]
  simp only [hfirst, hlast, List.reverse_reverse, List.count_append, List.count_eq_zero.mpr hbefore,
    Nat.add_zero]

theorem caretWidth_eq :
    caretWidth ⟨above.count '\n' + 1, before, covered ++ rest⟩ s = max 1 covered.length := by
  have hstart := h.start
  have hstop := h.stop
  simp only [Text.byteLength_append] at hstart hstop
  have hsplit : (Text.splitBytes (s.stop - s.start) (covered ++ rest)).1 = covered := by
    by_cases hle : s.stop - s.start ≤ Text.byteLength covered
    · have hlength : s.stop - s.start = Text.byteLength covered := by omega
      rw [hlength, Text.splitBytes_append]
    · have hnil : rest = [] := Text.byteLength_eq_zero.mp (by omega)
      rw [hnil, List.append_nil, Text.splitBytes_of_le (by omega)]
  unfold caretWidth
  rw [hsplit]

theorem excerpt_eq : excerpt source s =
    picture (above.count '\n' + 1) (before ++ covered ++ rest) before.length
      (max 1 covered.length) := by
  unfold excerpt
  dsimp only
  rw [h.lineAt_eq, h.caretWidth_eq]
  simp only [picture, List.append_assoc]

theorem min_start :
    min s.start (Text.byteLength source.toList) = Text.byteLength (above ++ before) := by
  have hstart := h.start
  have hlength := congrArg Text.byteLength h.text
  simp only [Text.byteLength_append] at hstart hlength ⊢
  omega

theorem startOfLine_eq : startOfLine (above ++ before) = Text.byteLength above := by
  have hline := h.line
  simp only [List.mem_append, not_or] at hline
  have hlast : (above ++ before).reverse.dropWhile (· ≠ '\n') = above.reverse := by
    rw [List.reverse_append]
    refine dropWhile_line (by rw [List.mem_reverse]; exact hline.1.1) ?_
    rw [List.reverse_eq_nil_iff, List.head?_reverse]
    exact h.lineStart
  rw [startOfLine, hlast, List.reverse_reverse]

theorem clamp?_stop : clamp? s.stop (Text.byteLength (above ++ before))
    (Text.byteLength (above ++ before) + Text.byteLength (covered ++ rest)) =
      some (Text.byteLength (above ++ before ++ covered)) := by
  have hstop := h.stop
  simp only [Text.byteLength_append] at hstop ⊢
  rw [clamp?, if_pos (by omega), Option.some.injEq]
  omega

/-- All cuts of the excerpt are between characters. -/
theorem excerpt?_eq : excerpt? source s = some (excerpt source s) := by
  have hupTo : Text.sliceBytes 0 (Text.byteLength (above ++ before)) source.toList =
      some (above ++ before) :=
    Text.sliceBytes_of_eq (a := []) (c := covered ++ rest ++ below) (by simp [h.text]) rfl rfl
  have honward : Text.sliceBytes (Text.byteLength (above ++ before))
      (Text.byteLength source.toList) source.toList = some (covered ++ rest ++ below) :=
    Text.sliceBytes_of_eq (c := []) (by simp [h.text]) rfl (by simp [h.text])
  have hlineEnd : (covered ++ rest ++ below).takeWhile (· ≠ '\n') = covered ++ rest := by
    have hline := h.line
    simp only [List.mem_append, not_or] at hline
    exact takeWhile_line (by simp [hline.1.2, hline.2]) h.lineEnd
  have habove : Text.sliceBytes 0 (Text.byteLength above) source.toList = some above :=
    Text.sliceBytes_of_eq (a := []) (c := before ++ covered ++ rest ++ below) (by simp [h.text])
      rfl rfl
  have hline : Text.sliceBytes (Text.byteLength above)
      (Text.byteLength (above ++ before) + Text.byteLength (covered ++ rest)) source.toList =
        some (before ++ covered ++ rest) :=
    Text.sliceBytes_of_eq (c := below) (by simp [h.text]) rfl (by simp [Nat.add_assoc])
  have hbefore : Text.sliceBytes (Text.byteLength above) (Text.byteLength (above ++ before))
      source.toList = some before :=
    Text.sliceBytes_of_eq (c := covered ++ rest ++ below) (by simp [h.text]) rfl rfl
  have hcovered : Text.sliceBytes (Text.byteLength (above ++ before))
      (Text.byteLength (above ++ before ++ covered)) source.toList = some covered :=
    Text.sliceBytes_of_eq (c := rest ++ below) (by simp [h.text]) rfl rfl
  rw [h.excerpt_eq]
  unfold excerpt?
  simp only [h.min_start, hupTo, honward, Option.bind_eq_bind, Option.bind_some, h.startOfLine_eq,
    hlineEnd, habove, hline, hbefore, h.clamp?_stop, hcovered]
  rfl

end Around

theorem render?_eq {d : Diagnostic} (h : ∀ s ∈ d.span, s.Inside source) :
    d.render? source = some (d.render source) := by
  obtain ⟨stage, message, span⟩ := d
  cases span with
  | none => rfl
  | some s =>
    obtain ⟨above, before, covered, rest, below, haround⟩ := exists_around (h s rfl)
    simp only [render?, render, haround.excerpt?_eq, Option.map_some]
    split <;> rfl

end Diagnostic

def CompileError.render? (e : CompileError) : Option String :=
  (e.diagnostics.mapM (Diagnostic.render? e.template)).map ("\n\n".intercalate ·)

theorem CompileError.render?_eq {e : CompileError}
    (h : ∀ d ∈ e.diagnostics, ∀ s ∈ d.span, s.Inside e.template) :
    e.render? = some e.render := by
  have hall : ∀ ds : List Diagnostic, (∀ d ∈ ds, ∀ s ∈ d.span, s.Inside e.template) →
      ds.mapM (Diagnostic.render? e.template) = some (ds.map (Diagnostic.render e.template)) := by
    intro ds hds
    induction ds with
    | nil => rfl
    | cons d ds ih =>
      obtain ⟨hd, hds⟩ := List.forall_mem_cons.mp hds
      rw [List.mapM_cons, Diagnostic.render?_eq hd, ih hds]
      rfl
  rw [render?, hall _ h]
  rfl

namespace Source

open PathTemplate.Tree (addressSchema)

variable {ρ : Type} {schema : Schema ρ} {functions : Functions ρ} {s : Source}

theorem resolved_located (schema : Schema ρ) (functions : Functions ρ) (policy : Policy)
    (hs : Text.byteLength s.template.toList < 4294967296) :
    match s.resolved schema functions policy with
    | .ok tree => tree.Located s.template
    | .error d => ∃ span, d.span = some span ∧ span.Inside s.template := by
  have hdivides := Template.parse_divides (Nat.le_of_lt_succ hs)
  unfold resolved
  cases hparse : Template.parse s.template with
  | error e =>
    rw [hparse] at hdivides
    exact ⟨e.span, rfl, hdivides⟩
  | ok t =>
    rw [hparse] at hdivides
    obtain ⟨segs, pieces, hsegs, hcovers, -⟩ := hdivides
    obtain rfl : t.segments = segs := hsegs
    have hbuilds := Tree.ofTemplate_builds ⟨schema, functions, policy, s.input⟩ s.sink hcovers
    show match (Tree.ofTemplate ⟨schema, functions, policy, s.input⟩ s.sink t).mapError
      Diagnostic.ofBuild with
      | .ok tree => tree.Located s.template
      | .error d => ∃ span, d.span = some span ∧ span.Inside s.template
    cases hbuild : Tree.ofTemplate ⟨schema, functions, policy, s.input⟩ s.sink t with
    | ok tree =>
      rw [hbuild] at hbuilds
      exact hbuilds
    | error e =>
      rw [hbuild] at hbuilds
      cases e <;> exact ⟨_, rfl, hbuilds⟩

/-- Whatever stage fails, there is one diagnostic and it is about a place in the template. -/
theorem routine_error_inside {config : Config} {name : String} {e : CompileError}
    (hs : Text.byteLength s.template.toList < 4294967296)
    (h : s.routine schema functions config name = .error e) :
    e.template = s.template ∧ ∃ d span, e.diagnostics = [d] ∧ d.span = some span ∧
      span.Inside s.template := by
  have hlocated := resolved_located schema functions config.policy hs
  cases hres : s.resolved schema functions config.policy with
  | error d =>
    rw [hres] at hlocated
    obtain ⟨span, hspan, hinside⟩ := hlocated
    simp only [routine, tree_eq, hres] at h
    cases h
    exact ⟨rfl, d, span, rfl, hspan, hinside⟩
  | ok tree =>
    rw [hres] at hlocated
    rw [routine_eq hres] at h
    have htree : (if config.optimize then (Tree.compact tree).1 else tree).Located s.template := by
      split
      · exact hlocated.compact
      · exact hlocated
    cases hgenerate : Routine.ofTree config.maxDepth name
      (if config.optimize then (Tree.compact tree).1 else tree) with
    | ok r =>
      rw [hgenerate] at h
      cases h
    | error de =>
      rw [hgenerate] at h
      cases h
      exact ⟨rfl, _, _, rfl, rfl, Routine.ofTree_error_inside htree hgenerate⟩

/-- Whatever stage fails, the error is rendered without a cut through a character, and every
diagnostic with a place shows the line in which it starts, under its number, with carets below the
part that the place has in the line. -/
theorem routine_error_renders {config : Config} {name : String} {e : CompileError}
    (hs : Text.byteLength s.template.toList < 4294967296)
    (h : s.routine schema functions config name = .error e) :
    e.render? = some e.render ∧
      ∀ d ∈ e.diagnostics, ∀ span ∈ d.span, span ≠ .nowhere →
        ∃ above before covered rest below,
          Diagnostic.Around s.template span above before covered rest below ∧
          d.render e.template = "error[" ++ d.stage.name ++ "]: " ++ d.message ++
            Diagnostic.picture (above.count '\n' + 1) (before ++ covered ++ rest) before.length
              (max 1 covered.length) := by
  obtain ⟨htemplate, d, span, hdiagnostics, hspan, hinside⟩ := routine_error_inside hs h
  constructor
  · refine CompileError.render?_eq fun d' hd' span' hspan' => ?_
    rw [hdiagnostics, List.mem_singleton] at hd'
    subst hd'
    rw [hspan] at hspan'
    cases hspan'
    rw [htemplate]
    exact hinside
  · intro d' hd' span' hspan' hne
    rw [hdiagnostics, List.mem_singleton] at hd'
    subst hd'
    rw [hspan] at hspan'
    cases hspan'
    obtain ⟨above, before, covered, rest, below, haround⟩ := Diagnostic.exists_around hinside
    refine ⟨above, before, covered, rest, below, haround, ?_⟩
    simp only [Diagnostic.render, hspan, hne, if_false, htemplate, haround.excerpt_eq]

def textSum : Source := ⟨"né\n€ $\x7baddress.city +\n 1\x7d!", "Person", "text"⟩

def textSumError : CompileError :=
  ⟨textSum.template, [⟨.type, "arithmetic needs a numeric value, found string", some ⟨23, 27⟩⟩]⟩

theorem routine_error_renders_textSum :
    textSum.routine addressSchema .empty (.ofPolicy .strict) "sum" = .error textSumError ∧
      textSumError.render = "error[type]: arithmetic needs a numeric value, found string\n" ++
        "  |\n2 | € $\x7baddress.city +\n  |                  ^" ∧
      textSumError.render? = some textSumError.render ∧
      ∃ above before covered rest below,
        Diagnostic.Around textSum.template ⟨23, 27⟩ above before covered rest below := by
  have hfail : (textSum.routine addressSchema .empty (.ofPolicy .strict) "sum").map (fun _ => ()) =
      .error textSumError := by decide +kernel
  have herror := eq_error_of_map hfail
  obtain ⟨hrender, hall⟩ := routine_error_renders (by decide +kernel) herror
  obtain ⟨above, before, covered, rest, below, haround, -⟩ :=
    hall _ (List.mem_singleton_self _) _ rfl (by decide)
  exact ⟨herror, by decide +kernel, hrender, above, before, covered, rest, below, haround⟩

end Source

end PathTemplate

import Script.Proofs.Eval.Blame
import Script.Proofs.File.Streaming
import Script.Proofs.Parser.Blame
import Script.Report

/-!
# The label of a failure

The source that a failure is reported with is what had been decoded of the file when its parser
stopped. Whatever went wrong, the place that the report marks can be marked in this source: it does
not reach beyond its end, and both ends of it are between two characters. An error of syntax comes
from parsing just this source. An error of evaluation is one of the program that the source is,
whose functions have no other bodies than those written in it.

* `Program.marks_span_of_hasPart`: the spans of a program can be marked in its text;
* `File.marks_label_of_run`: the label of a failure can be marked in its source;
* `Renderer.excerpts`: a renderer that refuses what cannot be marked.
-/

namespace Script

open Text (byteLength)

/-- **The spans of a parsed program** can be marked in its text. -/
theorem Program.marks_span_of_hasPart {text : String} {program : Program}
    (hlt : byteLength text.toList < 2 ^ 32) (h : parse text = .ok program) {part : Part}
    (hpart : program.HasPart part) : Text.Marks text.toList part.span := by
  have hplaced := LexemeStream.placed_ofChars hlt
  obtain ⟨⟨hstart, hstop, hbytes⟩, -⟩ := hpart.laidOut (laidOut_of_parse hlt h).1
  obtain ⟨x, hx, hxstart⟩ := hstart
  obtain ⟨y, hy, hystop⟩ := hstop
  have hmarks := (hplaced.lexemes x hx).through (hplaced.lexemes y hy)
    (by rw [hxstart, hystop]; exact UInt32.le_of_lt hbytes)
  rwa [hxstart, hystop] at hmarks

section Sources

variable {source : List Char} (hlt : byteLength source < 2 ^ 32)
include hlt

/-- The label of an error of syntax can be marked in the text that has the error. -/
theorem Program.marks_label_of_parse {error : ParseError}
    (h : parse (String.ofList source) = .error error) : Text.Marks source (error.label source) := by
  unfold ParseError.label
  split
  · refine Text.marks_point ?_
    rw [UInt32.toNat_ofNat_of_lt' hlt]
    exact Text.isBoundary_byteLength source
  · have hmarks := marks_span_of_parse (by rwa [String.toList_ofList]) h
    rwa [String.toList_ofList] at hmarks

/-- The error of a program that is evaluated in a fresh root can be marked in its text. -/
theorem Program.marks_span_of_eval {program : Program} {error : RuntimeError} {after : Store}
    (hparse : parse (String.ofList source) = .ok program)
    (h : Eval.program Store.empty.addRoot.1 program Store.empty.addRoot.2 = .error error after) :
    Text.Marks source error.span := by
  have hparts (part : Part) (hpart : program.HasPart part) : Text.Marks source part.span := by
    have hmarks := marks_span_of_hasPart (by rwa [String.toList_ofList]) hparse hpart
    rwa [String.toList_ofList] at hmarks
  -- no function has been made yet
  have hbodies : Store.empty.addRoot.2.BodiesIn (Text.Marks source) := by
    rintro ref closure ⟨⟩
  have htells := Eval.tells_program Store.empty.addRoot.1 hparts _ hbodies
  rw [h] at htells
  exact htells

end Sources

/-! ### Reports -/

/-- A way to draw excerpts: the lines that show a span of a source with a message, unless it is
refused in certain words. -/
abbrev Renderer := List Char → Span → String → Except String (List String)

/-- A renderer refuses only what cannot be marked. -/
def Renderer.DrawsMarks (render : Renderer) : Prop :=
  ∀ source span message refusal, render source span message = .error refusal →
    ¬ Text.Marks source span

namespace Failure

/-- A report with given lines as its excerpt. -/
def reportWith (failure : Failure) (excerpt : List String) : String :=
  unlines (("error: " ++ failure.title) :: excerpt ++ [""] ++ failure.notes ++ [""])

/-- The report of a failure by a renderer. Where this refuses the excerpt, the failure is told
on one line instead. -/
def reportBy (render : Renderer) (failure : Failure) : String :=
  match failure.label? with
  | none => failure.reportWith []
  | some (source, span, message) =>
    match render source span message with
    | .ok excerpt => failure.reportWith excerpt
    | .error refusal => failure.message ++ " (diagnostic could not be rendered: " ++ refusal ++ ")"

variable {failure : Failure} {source : List Char} {span : Span} {message : String}

/-- A label that can be marked is drawn. -/
theorem exists_reportBy_eq (hlabel : failure.label? = some (source, span, message))
    (hmarks : Text.Marks source span) {render : Renderer} (hrender : render.DrawsMarks) :
    ∃ excerpt, render source span message = .ok excerpt ∧
      failure.reportBy render = failure.reportWith excerpt := by
  cases hdrawn : render source span message with
  | error refusal => exact absurd hmarks (hrender source span message refusal hdrawn)
  | ok excerpt =>
    refine ⟨excerpt, rfl, ?_⟩
    rw [reportBy, hlabel]
    dsimp only
    rw [hdrawn]

end Failure

/-- **The label of a failure can be marked in its source.** Running a file of less than 4 GiB in a
fresh root, by whatever decoder of UTF-8, fails because the file cannot be read, or with a label.
The source that belongs to the label is the beginning of the file, and the span can be marked in it.
So every renderer draws the excerpt that refuses only what cannot be marked. -/
theorem File.marks_label_of_run {decode : Decoder} (hdecode : decode.DecodesUtf8)
    {bytes : List UInt8} (hlt : bytes.length < 2 ^ 32) {failure : Failure}
    (h : (runWith decode (.ok bytes) Store.empty.addRoot.1 Store.empty.addRoot.2).1 =
      .error failure) :
    (∃ fault, failure = .unreadable fault) ∨
      ∃ source span message, failure.label? = some (source, span, message) ∧
        Utf8.encode source <+: bytes ∧ Text.Marks source span ∧
        ∀ render : Renderer, render.DrawsMarks → ∃ excerpt,
          render source span message = .ok excerpt ∧
            failure.reportBy render = failure.reportWith excerpt := by
  obtain ⟨result, w, passed, rest, -, hparted, hpulled⟩ := exists_parses (decode bytes)
  cases hfault : w.recorder.fault? with
  | some fault =>
    rw [run_of_error _ _ (hparted.read_of_fault hpulled hfault)] at h
    cases h
    exact .inl ⟨_, rfl⟩
  | none =>
    -- what has been decoded parses by itself to the same result
    have hread := hparted.read_of_none hpulled hfault
    have hparse := hparted.parse_source hpulled hfault
    obtain ⟨later, hbytes, -⟩ := hdecode.exists_of_eq (hpulled.eq_append hfault)
    have hshort : byteLength w.recorder.source < 2 ^ 32 := by
      rw [hbytes, List.length_append, Utf8.length_encode] at hlt
      exact Nat.lt_of_le_of_lt (Nat.le_add_right _ _) hlt
    suffices hlabelled : ∃ span message,
        failure.label? = some (w.recorder.source, span, message) ∧
          Text.Marks w.recorder.source span by
      obtain ⟨span, message, hlabel, hmarks⟩ := hlabelled
      exact .inr ⟨_, span, message, hlabel, ⟨later, hbytes.symm⟩, hmarks, fun _ hrender =>
        Failure.exists_reportBy_eq hlabel hmarks hrender⟩
    cases result with
    | error error =>
      rw [run_of_error _ _ hread] at h
      cases h
      exact ⟨_, _, rfl, Program.marks_label_of_parse hshort hparse⟩
    | ok program =>
      rw [run_of_ok _ _ hread, outcome] at h
      split at h
      · cases h
      · next error s heval =>
        cases h
        exact ⟨_, _, rfl, Program.marks_span_of_eval hshort hparse heval⟩

/-! ### The renderer of the program -/

/-- Whether an offset is between two characters of a text, or at one of its ends. -/
def Text.boundaryAt : List Char → Nat → Bool
  | _, 0 => true
  | [], _ + 1 => false
  | c :: cs, n + 1 => c.utf8Size ≤ n + 1 && boundaryAt cs (n + 1 - c.utf8Size)

theorem Text.boundaryAt_iff {cs : List Char} {offset : Nat} :
    boundaryAt cs offset ↔ IsBoundary cs offset := by
  induction cs generalizing offset with
  | nil =>
    cases offset with
    | zero => exact iff_of_true rfl (isBoundary_zero [])
    | succ n => exact iff_of_false Bool.noConfusion fun h => absurd h.le (Nat.not_succ_le_zero n)
  | cons c cs ih =>
    cases offset with
    | zero => exact iff_of_true rfl (isBoundary_zero _)
    | succ n =>
      rw [boundaryAt, Bool.and_eq_true, decide_eq_true_iff, ih]
      constructor
      · rintro ⟨hle, before, after, rfl, hbefore⟩
        exact ⟨c :: before, after, rfl, by rw [byteLength_cons, hbefore]; omega⟩
      · rintro ⟨_ | ⟨x, before⟩, after, hcs, hbefore⟩
        · cases hbefore
        · obtain ⟨rfl, rfl⟩ := List.cons.inj hcs
          rw [byteLength_cons] at hbefore
          exact ⟨by omega, before, after, rfl, by omega⟩

instance (cs : List Char) (offset : Nat) : Decidable (Text.IsBoundary cs offset) :=
  decidable_of_iff _ Text.boundaryAt_iff

/-- The renderer of the excerpts of a file. It refuses a span that starts after its end, and one
with an end that is no place of the text. -/
def Renderer.excerpts (path : String) : Renderer := fun source span message =>
  if span.start ≤ span.stop ∧ Text.IsBoundary source span.start.toNat ∧
      Text.IsBoundary source span.stop.toNat then
    .ok (Excerpt.lines path source span message)
  else .error "invalid span"

theorem Renderer.excerpts_eq_ok {source : List Char} {span : Span} (h : Text.Marks source span)
    (path message : String) :
    excerpts path source span message = .ok (Excerpt.lines path source span message) :=
  if_pos ⟨h.start_le_stop, h.start_boundary, h.stop_boundary⟩

theorem Renderer.drawsMarks_excerpts (path : String) : (excerpts path).DrawsMarks := by
  intro source span message refusal h hmarks
  rw [excerpts_eq_ok hmarks] at h
  cases h

/-- `fn(){"é"+x}()`: the name that is bound nowhere stands behind a character of two bytes, in the
body of a function that is called after it. -/
theorem File.marks_label_of_run_body :
    let bytes : List UInt8 := [102, 110, 40, 41, 123, 34, 195, 169, 34, 43, 120, 125, 40, 41]
    let source := ['f', 'n', '(', ')', '\x7b', '"', 'é', '"', '+', 'x', '\x7d', '(', ')']
    let failure : Failure := .runtimeError source ⟨.unboundName "x", 10, 11⟩
    (run (.ok bytes) Store.empty.addRoot.1 Store.empty.addRoot.2).1 = .error failure ∧
      Utf8.encode source <+: bytes ∧ Text.Marks source ⟨10, 11⟩ ∧
      failure.reportBy (.excerpts "script") = failure.report "script" := by
  intro bytes source failure
  have hrun : (run (.ok bytes) Store.empty.addRoot.1 Store.empty.addRoot.2).1 = .error failure := by
    decide +kernel
  refine ⟨hrun, ?_⟩
  rcases marks_label_of_run Utf8.decodesUtf8_decoder (by decide) hrun with
    ⟨fault, hfault⟩ | ⟨_, span, message, hlabel, hbegins, hmarks, hdraws⟩
  · exact absurd hfault Failure.noConfusion
  · cases hlabel
    obtain ⟨excerpt, hexcerpt, hreport⟩ :=
      hdraws (.excerpts "script") (Renderer.drawsMarks_excerpts "script")
    rw [Renderer.excerpts_eq_ok hmarks] at hexcerpt
    cases hexcerpt
    exact ⟨hbegins, hmarks, hreport⟩

end Script

import Script.Proofs.Lexeme.Reading
import Script.Proofs.Parser.Soundness
import Script.Proofs.Parser.Completeness

/-!
# The language of the parser

The parser accepts the programs of the grammar, each as its one tree, as far as nesting allows. With
more levels than there are lexemes the nesting is never too deep, so the grammar itself gives no two
trees to the same lexemes.

* `IsProgram.unique`: the grammar is not ambiguous;
* `parse_eq_ok_iff_isProgram`: which texts are accepted, and as what.
-/

namespace Script

open Grammar

namespace Parse

/-- The state after all lexemes of a stream that ends where its text does. -/
def atEnd (stream : LexemeStream) (offset : UInt32) : ParserState :=
  ⟨[], .eof offset, stopAfter 0 stream.lexemes⟩

theorem comes_atEnd (stream : LexemeStream) (offset : UInt32) : (atEnd stream offset).Comes .eof :=
  beq_self_eq_true _

variable {stream : LexemeStream} {offset : UInt32} (hending : stream.ending = .eof offset)
include hending

theorem consumes_ofStream : Consumes (.ofStream stream) stream.lexemes (atEnd stream offset) :=
  ⟨(List.append_nil _).symm, hending.symm, rfl⟩

/-- A program is read from a stream whose lexemes are read as its nodes. -/
theorem gives_program_of_nodes {few : Prop} {levels : Nat} {p : Program}
    (hspan : let start := (stream.lexemes.head?.map (·.span.start)).getD offset
      p.span = ⟨start, max (stopAfter 0 stream.lexemes) start⟩)
    (hnodes : Gives few (programWithin levels (stream.lexemes.length + 1)) (.ofStream stream)
      p.nodes (atEnd stream offset)) :
    Gives few (program levels) (.ofStream stream) p (atEnd stream offset) := by
  obtain ⟨lexemes, comments, ending⟩ := stream
  obtain rfl : ending = .eof offset := hending
  obtain ⟨nodes, span⟩ := p
  obtain rfl := hspan
  rw [program]
  refine Gives.after rfl (Gives.after rfl (hnodes.bind (.of_ok ?_)))
  cases lexemes <;> rfl

/-- The program of some lexemes is read from a stream of them, unless the levels are no more than
the lexemes and the nesting is too deep. -/
theorem gives_program (levels : Nat) {p : Program} (h : IsProgram stream.lexemes offset p) :
    Gives (levels ≤ stream.lexemes.length) (program levels) (.ofStream stream) p
      (atEnd stream offset) := by
  obtain ⟨hbody, hspan⟩ := h
  refine gives_program_of_nodes hending hspan ?_
  exact accepted_of_derives hbody id (bodyLoop_programWithin levels) (consumes_ofStream hending)
    (comes_atEnd stream offset) (Nat.lt_succ_self _)

end Parse

/-- **The grammar is not ambiguous**: lexemes are at most one program. -/
theorem Grammar.IsProgram.unique {l : List Lexeme} {offset : UInt32} {p q : Program}
    (hp : IsProgram l offset p) (hq : IsProgram l offset q) : p = q := by
  -- with so many levels the parser cannot fail, and it gives one program only
  have hfew : ¬ l.length + 1 ≤ l.length := Nat.not_succ_le_self _
  have hending : (LexemeStream.mk l [] (.eof offset)).ending = .eof offset := rfl
  have hp' := (Parse.gives_program hending (l.length + 1) hp).eq_ok hfew
  have hq' := (Parse.gives_program hending (l.length + 1) hq).eq_ok hfew
  cases hp'.symm.trans hq'
  rfl

namespace Program

variable {text : String} {offset : UInt32}

/-- What a text is parsed as is a program of its lexemes, and the text has no lexical error. -/
theorem isProgram_of_parse {p : Program} (h : parse text = .ok p) :
    ∃ offset, (LexemeStream.ofText text).ending = .eof offset ∧
      IsProgram (LexemeStream.ofText text).lexemes offset p := by
  rw [parse, ofStream] at h
  cases hs : Parse.program maxNesting (.ofStream (.ofText text)) with
  | error error s =>
    rw [hs] at h
    cases h
  | ok q s =>
    rw [hs] at h
    cases h
    refine Parse.isProgram_of_program (fun x hx => ?_) hs
    exact (LexemeStream.mem_of_mem_ofReadings hx).2.1

/-- A program of the lexemes of a text is what the text is parsed as, unless it has many lexemes
and the nesting is too deep. -/
theorem parse_of_isProgram {p : Program} (hending : (LexemeStream.ofText text).ending = .eof offset)
    (h : IsProgram (LexemeStream.ofText text).lexemes offset p) :
    maxNesting ≤ (LexemeStream.ofText text).lexemes.length ∧
        (∃ error, parse text = .error error ∧ error.cause = .nestingTooDeep) ∨
      parse text = .ok p := by
  rw [parse, ofStream]
  rcases Parse.gives_program hending maxNesting h with ⟨hmany, error, s, hs, hcause⟩ | hs
  · rw [hs]
    exact .inl ⟨hmany, error, rfl, hcause⟩
  · rw [hs]
    exact .inr rfl

/-- **The parser accepts exactly the language of the grammar and builds its one tree**, on every
text without lexical errors whose nesting it does not find too deep. -/
theorem parse_eq_ok_iff_isProgram (hending : (LexemeStream.ofText text).ending = .eof offset)
    (hdeep : ∀ error, parse text = .error error → error.cause ≠ .nestingTooDeep) :
    (∀ p, parse text = .ok p ↔ IsProgram (LexemeStream.ofText text).lexemes offset p) ∧
      ∀ p q, IsProgram (LexemeStream.ofText text).lexemes offset p →
        IsProgram (LexemeStream.ofText text).lexemes offset q → p = q := by
  have hcomplete (p : Program) (h : IsProgram (LexemeStream.ofText text).lexemes offset p) :
      parse text = .ok p := by
    rcases parse_of_isProgram hending h with ⟨-, error, herror, hcause⟩ | hok
    · exact absurd hcause (hdeep error herror)
    · exact hok
  refine ⟨fun p => ⟨fun h => ?_, hcomplete p⟩, fun _ _ => IsProgram.unique⟩
  -- the text has only one end
  obtain ⟨offset', hending', hp⟩ := isProgram_of_parse h
  rw [hending] at hending'
  cases hending'
  exact hp

/-- An assignment whose value compares a name with a negated call: it has no other tree. -/
theorem parse_eq_ok_iff_isProgram_assignment :
    (LexemeStream.ofText "a = b == -c(1)").ending = .eof 14 ∧
      (∀ error, parse "a = b == -c(1)" = .error error → error.cause ≠ .nestingTooDeep) ∧
      (∀ p, parse "a = b == -c(1)" = .ok p ↔
        IsProgram (LexemeStream.ofText "a = b == -c(1)").lexemes 14 p) ∧
      ∀ p q, IsProgram (LexemeStream.ofText "a = b == -c(1)").lexemes 14 p →
        IsProgram (LexemeStream.ofText "a = b == -c(1)").lexemes 14 q → p = q := by
  have hending : (LexemeStream.ofText "a = b == -c(1)").ending = .eof 14 := by decide
  have hparse : parse "a = b == -c(1)" = .ok ⟨[.expression (.assign (.name ⟨"a", 0, 1⟩)
      (.binary .equal (.name ⟨"b", 4, 5⟩)
        (.unary .minus (.call (.name ⟨"c", 10, 11⟩) [.integer 1 ⟨12, 13⟩] ⟨10, 14⟩) ⟨9, 14⟩)
        ⟨4, 14⟩) ⟨0, 14⟩)], 0, 14⟩ := by rfl
  have hdeep (error : ParseError) (h : parse "a = b == -c(1)" = .error error) :
      error.cause ≠ .nestingTooDeep := by
    rw [hparse] at h
    cases h
  exact ⟨hending, hdeep, parse_eq_ok_iff_isProgram hending hdeep⟩

end Program

end Script

import Script.Proofs.Lexeme.Lines
import Script.Proofs.Parser.Continuation

/-!
# The nodes of a text

What the parser gives of a text is told by the nodes that it reads of its stream of lexemes. And the
stream of a text with another one below it is the one stream after the other.

* `LexemeStream.ofText_newline`: the stream of two texts, one below the other;
* `Program.parse_map_nodes`: the nodes of a text.
-/

namespace Script

/-! ### Texts with more below them -/

namespace LexemeStream

theorem token_ne_eof {text : String} : ∀ x ∈ (ofText text).lexemes, x.token ≠ .eof := by
  intro x hx heof
  have hregular := regular_of_mem_ofText hx
  rw [heof] at hregular
  exact hregular

/-- **The stream of a text with another one below it.** -/
theorem ofText_newline {text : String} {stop : UInt32} (h : (ofText text).ending = .eof stop)
    (more : String) :
    ofText (text ++ "\n" ++ more) = (ofText text).followedBy
      ((ofText more).move (· + .ofNat (Text.byteLength text.toList + 1))) := by
  have htext : (text ++ "\n" ++ more).toList = text.toList ++ '\n' :: more.toList := by
    rw [String.toList_append, String.toList_append, List.append_assoc]
    rfl
  rw [ofText, htext]
  exact ofChars_newline h more.toList

theorem ofText_ofList (cs : List Char) : ofText (String.ofList cs) = ofChars cs :=
  congrArg ofChars String.toList_ofList

theorem ofStream_followedBy (stream next : LexemeStream) :
    ParserState.ofStream (stream.followedBy next) =
      (ParserState.ofStream stream).followedBy (.ofStream next) :=
  rfl

end LexemeStream

namespace Program

open Parse

/-! ### The nodes of a text -/

theorem ofStream_eq (levels : Nat) (stream : LexemeStream) :
    ofStream levels stream = (programNodes levels >>= fun nodes => do
      let start := ((ParserState.ofStream stream).lookahead?.map (·.span.start)).getD 0
      return (⟨nodes, start, max (← get).lastStop start⟩ : Program)) (.ofStream stream) :=
  rfl

/-- A stream is rejected exactly if its nodes cannot be read. -/
theorem ofStream_eq_error_iff {levels : Nat} {stream : LexemeStream} {error : ParseError}
    {s : ParserState} : ofStream levels stream = .error error s ↔
      programNodes levels (.ofStream stream) = .error error s := by
  rw [ofStream_eq]
  cases hnodes : programNodes levels (.ofStream stream) with
  | ok nodes s' =>
    rw [bind_ok hnodes]
    constructor <;> intro h <;> cases h
  | error error' s' =>
    rw [bind_error hnodes]
    constructor <;> intro h <;> cases h <;> rfl

/-- **What a text is parsed to** are the nodes that are read of its stream. -/
theorem parse_map_nodes (text : String) : (parse text).map (·.nodes) =
    withoutState (programNodes maxNesting (.ofStream (.ofText text))) := by
  rw [parse, ofStream_eq]
  cases hnodes : programNodes maxNesting (.ofStream (.ofText text)) with
  | ok nodes s =>
    rw [bind_ok hnodes]
    rfl
  | error error s =>
    rw [bind_error hnodes]
    rfl

theorem parse_eq_error_iff {text : String} {error : ParseError} : parse text = .error error ↔
    ∃ s, programNodes maxNesting (.ofStream (.ofText text)) = .error error s := by
  simp only [← ofStream_eq_error_iff, parse]
  cases ofStream maxNesting (.ofText text) with
  | ok program s => simp
  | error error' s => simp

theorem exists_parse_eq_ok_iff {text : String} : (∃ program, parse text = .ok program) ↔
    ∃ nodes s, programNodes maxNesting (.ofStream (.ofText text)) = .ok nodes s := by
  rw [parse, ofStream_eq]
  cases hnodes : programNodes maxNesting (.ofStream (.ofText text)) with
  | ok nodes s =>
    rw [bind_ok hnodes]
    exact ⟨fun _ => ⟨nodes, s, rfl⟩, fun _ => ⟨_, rfl⟩⟩
  | error error s =>
    rw [bind_error hnodes]
    simp

theorem exists_programNodes_of_parse {text : String} {p : Program} (h : parse text = .ok p) :
    ∃ s, programNodes maxNesting (.ofStream (.ofText text)) = .ok p.nodes s := by
  have hnodes := parse_map_nodes text
  rw [h] at hnodes
  cases hs : programNodes maxNesting (.ofStream (.ofText text)) with
  | ok nodes s =>
    rw [hs] at hnodes
    cases hnodes
    exact ⟨s, rfl⟩
  | error error s =>
    rw [hs] at hnodes
    cases hnodes

end Program

end Script

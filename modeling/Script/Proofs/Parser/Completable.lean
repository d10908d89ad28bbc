import Script.Proofs.Parser.Text
import Script.Proofs.Parser.Unfinished

/-!
# Unfinished and hopeless texts

A text that is rejected is either unfinished or hopeless. The error tells which: if the text ends
too early, there is another text that completes it on the lines below, and if the error is any
other, there is none. What completes a text may need a level of nesting more, so this is said of
texts that stay below the bound.

* `Program.unexpectedEnd_iff_completable`: a text ends too early exactly if it can be completed.
-/

namespace Script

/-! ### Texts with given tokens -/

/-- All lexemes that there are can be taken. -/
theorem Consumes.whole (s : ParserState) :
    Consumes s s.lexemes ⟨[], s.ending, Grammar.stopAfter s.lastStop s.lexemes⟩ :=
  ⟨(List.append_nil _).symm, rfl, rfl⟩

/-- Tokens that can be written are those of some text: their literals with spaces between. -/
theorem exists_spells : ∀ {tokens : List Token}, Writable tokens → ∃ cs, Spells cs tokens
  | [], _ => ⟨[], .nil⟩
  | token :: tokens, h => by
    obtain ⟨⟨hregular, hplain⟩, htokens⟩ := writable_cons.1 h
    obtain ⟨cs, hcs⟩ := exists_spells htokens
    refine ⟨_, hcs.space.literal token hregular hplain ?_⟩
    rintro c ⟨⟩
    cases token with
    | symbol sign => cases sign <;> rfl
    | _ => rfl

namespace Program

open Parse

/-! ### Unfinished texts -/

/-- The nesting of a text stays within some levels: a parser that may use no more of them does
not find it too deep. -/
def StaysWithin (levels : Nat) (text : String) : Prop :=
  ∀ error s, ofStream levels (.ofText text) = .error error s → error.cause ≠ .nestingTooDeep

/-- What a rejected text comes to. Either it is hopeless: whatever comes after its lexemes, the
error is the same. Or it ends too early, and some tokens mend it. -/
theorem stuck_of_parse_eq_error {text : String} {error : ParseError} {offset : UInt32}
    {levels : Nat}
    (hlexical : (LexemeStream.ofText text).ending = .eof offset) (hlevels : levels < maxNesting)
    (hnesting : StaysWithin levels text) (h : parse text = .error error) :
    error.cause ≠ .unexpectedEnd ∧ (∀ k : ParserState, ∃ s, programNodes maxNesting
        ((ParserState.ofStream (.ofText text)).followedBy k) = .error error s) ∨
      error.cause = .unexpectedEnd ∧
        Mends (· = .eof) (programNodes maxNesting) (.ofStream (.ofText text)) := by
  obtain ⟨s, hs⟩ := parse_eq_error_iff.1 h
  have hresumes : Resumes True (· = .eof) (programNodes levels) (programNodes maxNesting)
      (.ofStream (.ofText text)) :=
    resumes_programNodes (Nat.le_of_lt hlevels) (fun _ => hlevels) _
  cases hfew : programNodes levels (.ofStream (.ofText text)) with
  | ok nodes s' => cases hs.symm.trans (hresumes.same hfew)
  | error error' s' =>
    -- the parser with fewer levels fails in the same way
    have hproper : s'.Proper := by
      obtain ⟨l, hl⟩ := hresumes.consumes
      rw [hfew] at hl
      have hmem {x : Lexeme} (hx : x ∈ s'.lexemes) : x ∈ (LexemeStream.ofText text).lexemes := by
        show x ∈ (ParserState.ofStream (.ofText text)).lexemes
        rw [hl.lexemes_eq]
        exact List.mem_append_right l hx
      refine ⟨fun x hx => LexemeStream.token_ne_eof x (hmem hx), offset, ?_⟩
      · exact hl.ending_eq.trans hlexical
    obtain ⟨hsame, hstuck⟩ := hresumes.stuck trivial hfew hproper
      (hnesting _ _ (ofStream_eq_error_iff.2 hfew))
    cases hs.symm.trans hsame
    rcases hstuck with ⟨-, hcause, hfinal⟩ | ⟨hcause, hmends⟩
    · exact .inl ⟨hcause, fun k => ⟨_, hfinal k⟩⟩
    · exact .inr ⟨hcause, hmends⟩

/-- **A text ends too early exactly if it can be completed** by what comes on the lines below it. So
any other error is final. This is said of texts without lexical errors that are rejected and that
stay below the bound on nesting. -/
theorem unexpectedEnd_iff_completable {text : String} {error : ParseError} {offset : UInt32}
    {levels : Nat}
    (hlexical : (LexemeStream.ofText text).ending = .eof offset) (hlevels : levels < maxNesting)
    (hnesting : StaysWithin levels text) (h : parse text = .error error) :
    error.cause = .unexpectedEnd ↔ ∃ more program, parse (text ++ "\n" ++ more) = .ok program := by
  rcases stuck_of_parse_eq_error hlexical hlevels hnesting h with
    ⟨hcause, hfinal⟩ | ⟨hcause, fillers, hmends⟩
  · refine ⟨fun hend => absurd hend hcause, ?_⟩
    rintro ⟨more, hmore⟩
    obtain ⟨nodes, s, hnodes⟩ := exists_parse_eq_ok_iff.1 hmore
    rw [LexemeStream.ofText_newline hlexical, LexemeStream.ofStream_followedBy] at hnodes
    obtain ⟨s', herror⟩ := hfinal _
    cases hnodes.symm.trans herror
  · refine ⟨fun _ => ?_, fun _ => hcause⟩
    obtain ⟨cs, hcs⟩ := exists_spells (Filler.writable fillers)
    obtain ⟨htokens, stop, hending⟩ := hcs 0 0
    refine ⟨String.ofList cs, exists_parse_eq_ok_iff.2 ?_⟩
    rw [LexemeStream.ofText_newline hlexical, LexemeStream.ofStream_followedBy,
      LexemeStream.ofText_ofList]
    -- the stream below has the tokens that mend the text, and nothing after them
    generalize hbelow : LexemeStream.move _ (LexemeStream.ofChars cs) = below
    have hmap : below.lexemes.map (·.token) = fillers.map Filler.token := by
      rw [← hbelow, ← htokens]
      exact List.map_map
    have heof : below.ending = .eof (stop + .ofNat (Text.byteLength text.toList + 1)) := by
      rw [← hbelow]
      exact congrArg (Ending.move _) hending
    have hlook (lastStop : UInt32) : (⟨[], below.ending, lastStop⟩ : ParserState).lookahead? =
        some ⟨.eof, .point (stop + .ofNat (Text.byteLength text.toList + 1))⟩ := by
      rw [ParserState.lookahead?, heof]
    obtain ⟨nodes, hnodes⟩ := hmends (k := .ofStream below) (Consumes.whole _) hmap
      ⟨_, hlook _, rfl⟩
    exact ⟨nodes, _, hnodes⟩

/-- An open list can be completed ten levels below the bound on nesting. -/
theorem unexpectedEnd_iff_completable_openList :
    (LexemeStream.ofText "let x = [1,").ending = .eof 11 ∧ maxNesting - 10 < maxNesting ∧
      StaysWithin (maxNesting - 10) "let x = [1," ∧
      parse "let x = [1," = .error ⟨.unexpectedEnd, .point 11⟩ ∧
      ((⟨.unexpectedEnd, .point 11⟩ : ParseError).cause = .unexpectedEnd ↔
        ∃ more program, parse ("let x = [1," ++ "\n" ++ more) = .ok program) := by
  have hending : (LexemeStream.ofText "let x = [1,").ending = .eof 11 := by rfl
  have hlevels : maxNesting - 10 < maxNesting := by decide
  have hnesting : StaysWithin (maxNesting - 10) "let x = [1," := by
    intro error s h
    have hfew : ofStream (maxNesting - 10) (.ofText "let x = [1,") =
        .error ⟨.unexpectedEnd, .point 11⟩ ⟨[], .eof 11, 11⟩ := by rfl
    cases h.symm.trans hfew
    decide
  have hparse : parse "let x = [1," = .error ⟨.unexpectedEnd, .point 11⟩ := by rfl
  exact ⟨hending, hlevels, hnesting, hparse,
    unexpectedEnd_iff_completable hending hlevels hnesting hparse⟩

end Program

end Script

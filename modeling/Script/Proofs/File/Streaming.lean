import Script.Proofs.File.Decoding
import Script.Proofs.File.Window
import Script.Proofs.Lexeme.Prefix
import Script.Proofs.Parser.Locality

/-!
# A file is run while it is decoded

The pulls that a file is judged by are told from how far its parser has looked (`File.lookedAt`).
Here they are found again by decoding step by step: a window on the pulls is asked for lexemes, as
many as the parser needs to come to its result (`File.Parses`), and the pulls that the window has
made by then are the ones that count.

How far that is depends on the characters passed and on the one after them alone, since a lexer
looks one character ahead and a parser one lexeme. So pulls that go on in the same way are judged
alike (`File.Parted.of_head?`): those of the file, those of the characters that have been decoded,
and those of these characters with other bytes after them.

* `Program.DeterminedBy`: lexemes that are enough to parse a program;
* `File.Parses`: a program parsed while its text is decoded, and `File.Parses.unique`: in one way;
* `File.run_while_decoding`: the outcome of running a file.
-/

namespace Script

open Text (byteLength)

/-! ### What a program is read from -/

/-- Some lexemes and what comes next determine what is read: the same from every stream that
begins with them, and just these lexemes are taken. -/
def Program.DeterminedBy (l : List Lexeme) (reading : Reading)
    (result : Except ParseError Program) : Prop :=
  ∀ stream : LexemeStream, (∀ x ∈ stream.lexemes, x.token ≠ .eof) → stream.StartsWith l reading →
    ∃ s, ofStream maxNesting stream = inState s result ∧ Consumes (.ofStream stream) l s

namespace Program

theorem token_ne_eof {cs : List Char} : ∀ x ∈ (LexemeStream.ofChars cs).lexemes, x.token ≠ .eof :=
  fun _ hx => (LexemeStream.mem_of_mem_ofReadings hx).2.1

variable {l : List Lexeme} {reading : Reading} {result : Except ParseError Program}

/-- What is read from a text is determined by what a cursor is asked for in it. -/
theorem exists_determinedBy (cs : List Char) :
    ∃ l reading c', Feeds Cursor.next (.ofChars cs) l reading c' ∧
      DeterminedBy l reading (parse (String.ofList cs)) := by
  obtain ⟨l, htakes⟩ := Parse.exists_consumes_program maxNesting (.ofStream (.ofChars cs))
  obtain ⟨c', hfeeds⟩ := Cursor.exists_feeds (.ofChars cs) 0 htakes.lexemes_eq
  refine ⟨l, _, c', hfeeds, fun stream hstream hstarts => ?_⟩
  obtain ⟨s, hresult, htakes'⟩ :=
    ofStream_of_startsWith token_ne_eof hstream htakes ⟨_, htakes.lexemes_eq, rfl⟩ hstarts
  refine ⟨s, ?_, htakes'⟩
  rw [hresult, parse_eq_withoutState, LexemeStream.ofText, String.toList_ofList]

namespace DeterminedBy

variable {cs : List Char} {c' : Cursor}

/-- A text in which a cursor is asked for the same gives the same result, and the same reading
comes next. -/
theorem exists_ofStream (h : DeterminedBy l reading result)
    (hfeeds : Feeds Cursor.next (.ofChars cs) l reading c') :
    ∃ s, ofStream maxNesting (.ofChars cs) = inState s result ∧
      (LexemeStream.ofChars cs).lexemes = l ++ s.lexemes ∧
      upcoming s.lexemes s.ending = reading ∧ ∀ x ∈ s.lexemes, x.token ≠ .eof := by
  have hstarts := Cursor.startsWith_of_feeds hfeeds 0
  obtain ⟨s, hs, htakes⟩ := h _ token_ne_eof hstarts
  obtain ⟨more, hlexemes, hnext⟩ := hstarts
  have hmore : s.lexemes = more := List.append_cancel_left (htakes.lexemes_eq.symm.trans hlexemes)
  refine ⟨s, hs, htakes.lexemes_eq, ?_, fun x hx => ?_⟩
  · rw [hmore, htakes.ending_eq]
    exact hnext
  · have hmem : x ∈ (ParserState.ofStream (.ofChars cs)).lexemes := by
      rw [htakes.lexemes_eq]
      exact List.mem_append_right l hx
    exact token_ne_eof x hmem

theorem parse_eq (h : DeterminedBy l reading result)
    (hfeeds : Feeds Cursor.next (.ofChars cs) l reading c') :
    parse (String.ofList cs) = result := by
  obtain ⟨s, hs, -⟩ := h.exists_ofStream hfeeds
  rw [parse_eq_withoutState, LexemeStream.ofText, String.toList_ofList, hs, withoutState_inState]

/-- A program is there only at the end of the text. -/
theorem rest_eq_nil {program : Program} (h : DeterminedBy l reading (.ok program))
    (hfeeds : Feeds Cursor.next (.ofChars cs) l reading c') : c'.rest = [] := by
  obtain ⟨s, hs, -, hnext, hproper⟩ := h.exists_ofStream hfeeds
  have hend := Parse.comes_eof_of_program hs
  rw [ParserState.Comes, ParserState.lookahead?] at hend
  cases hlexemes : s.lexemes with
  | cons x rest =>
    rw [hlexemes] at hend hproper
    exact absurd (by simpa using hend) (hproper x (by simp))
  | nil =>
    rw [hlexemes] at hend hnext
    cases hending : s.ending with
    | broken error =>
      rw [hending] at hend
      cases hend
    | eof offset =>
      rw [hending] at hnext
      subst hnext
      exact Cursor.rest_of_feeds_eof hfeeds

end DeterminedBy

end Program

namespace File

/-- What a source says by the result of parsing it. -/
def found (source : List Char) : Except ParseError Program → Except Failure (List Char × Program)
  | .ok program => .ok (source, program)
  | .error error => .error (.syntaxError source error)

/-- What is made of the pulls that are looked at and of the result of the parser. -/
def conclude (looked : List (Except ReadFault Char)) (result : Except ParseError Program) :
    Except Failure (List Char × Program) :=
  match Utf8.lastFault? looked with
  | some fault => .error (.unreadable fault)
  | none => found (Utf8.characters looked) result

/-- The characters of some pulls are parted where the parser stops. -/
structure Parted (pulls : List (Except ReadFault Char)) (result : Except ParseError Program)
    (passed rest : List Char) : Prop where
  characters_eq : Utf8.characters pulls = passed ++ rest
  exists_feeds : ∃ l reading, Program.DeterminedBy l reading result ∧
    Feeds Cursor.next (.ofChars (passed ++ rest)) l reading ⟨byteLength passed, rest⟩

namespace Parted

variable {pulls : List (Except ReadFault Char)} {result : Except ParseError Program}
  {passed rest : List Char}

/-- The characters before the first fault are parsed to the same result. -/
theorem parse_eq (h : Parted pulls result passed rest) :
    Program.parse (String.ofList (Utf8.characters pulls)) = result := by
  obtain ⟨hcharacters, l, reading, hresult, hfeeds⟩ := h
  rw [hcharacters]
  exact hresult.parse_eq hfeeds

/-- **Other pulls that go on with the same character** are parted at the same place. -/
theorem of_head? {pulls' : List (Except ReadFault Char)} {rest' : List Char}
    (h : Parted pulls result passed rest) (hcharacters : Utf8.characters pulls' = passed ++ rest')
    (hhead : rest'.head? = rest.head?) : Parted pulls' result passed rest' := by
  obtain ⟨-, l, reading, hresult, hfeeds⟩ := h
  refine ⟨hcharacters, l, reading, hresult, ?_⟩
  obtain ⟨taken, hrest, -, hsame⟩ := Cursor.exists_feeds_append hfeeds
  obtain rfl : passed = taken := List.append_cancel_right hrest
  exact hsame rest' hhead

section Recorders

variable {r : Recorder} (h : Parted pulls result passed rest)
  (hpulled : r.Pulled pulls (passed.length + 2)) (hnone : r.fault? = none)
include h hpulled hnone

/-- What has been pulled is what the parser has passed, and two characters more. -/
theorem source_eq : r.source = passed ++ rest.take 2 := by
  have htake := congrArg Utf8.characters (hpulled.take_eq hnone)
  rw [Utf8.characters_take, Utf8.characters_map_ok, h.characters_eq, List.take_length_add_append]
    at htake
  exact htake.symm

/-- What has been pulled is by itself parsed to the same result. -/
theorem parse_source : Program.parse (String.ofList r.source) = result := by
  have hhead : (rest.take 2).head? = rest.head? := by cases rest <;> rfl
  have hsource := (h.of_head? (Utf8.characters_map_ok _) hhead).parse_eq
  rwa [Utf8.characters_map_ok, ← h.source_eq hpulled hnone] at hsource

/-- Where the parser finds a program, everything has been pulled. -/
theorem left_eq_nil {program : Program} (hok : result = .ok program) : r.left = [] := by
  subst hok
  obtain ⟨l, reading, hresult, hfeeds⟩ := h.exists_feeds
  obtain rfl : rest = [] := hresult.rest_eq_nil hfeeds
  -- otherwise two characters would have been pulled that the parser has not passed
  refine Classical.byContradiction fun hleft => ?_
  have hlength := hpulled.length_source hnone hleft
  rw [h.source_eq hpulled hnone, List.take_nil, List.append_nil] at hlength
  omega

/-- Pulls that begin with those made are parted at the same place, if there were more. -/
theorem of_source (hleft : r.left ≠ []) (later : List (Except ReadFault Char)) :
    Parted (r.source.map .ok ++ later) result passed
      (rest.take 2 ++ Utf8.characters later) := by
  have hsource := h.source_eq hpulled hnone
  have hlength := hpulled.length_source hnone hleft
  refine h.of_head? ?_ ?_
  · rw [Utf8.characters_map_ok_append, hsource, List.append_assoc]
  · cases rest with
    | cons c rest => rfl
    | nil =>
      -- two characters more have been pulled, so something is left to pass
      rw [hsource, List.length_append, List.length_take] at hlength
      simp at hlength

end Recorders

section Reading

variable {decode : Decoder} {bytes : List UInt8} (h : Parted (decode bytes) result passed rest)
include h

/-- The pulls looked at are those of the characters passed, and two more. -/
theorem read_eq : read decode bytes =
    conclude ((decode bytes).take (passed.length + 2)) result := by
  obtain ⟨hcharacters, l, reading, hresult, hfeeds⟩ := h
  obtain ⟨s, hs, hlexemes, -⟩ := hresult.exists_ofStream hfeeds
  have hlooked : lookedAt (decode bytes) ⟨byteLength passed, rest⟩ =
      (decode bytes).take (passed.length + 2) := by
    rw [lookedAt, hcharacters, List.length_append, Nat.add_sub_cancel]
  have htext : (Cursor.ofChars (passed ++ rest)).rest = passed ++ rest := rfl
  unfold read
  dsimp only
  rw [hcharacters, htext, hs]
  cases result with
  | ok program | error error =>
    dsimp only [inState]
    rw [Cursor.skip_of_feeds hfeeds hlexemes, hlooked]
    rfl

variable {r : Recorder} (hpulled : r.Pulled (decode bytes) (passed.length + 2))
include hpulled

theorem read_of_fault {fault : ReadFault} (hfault : r.fault? = some fault) :
    read decode bytes = .error (.unreadable fault) := by
  rw [h.read_eq]
  unfold conclude
  rw [← hpulled.fault?_eq, hfault]

variable (hnone : r.fault? = none)
include hnone

theorem read_of_none : read decode bytes = found r.source result := by
  rw [h.read_eq, hpulled.take_eq hnone]
  unfold conclude
  rw [Utf8.lastFault?_map_ok, Utf8.characters_map_ok]

/-- Later bytes do not matter, where something was left to pull. -/
theorem read_later (hdecode : decode.DecodesUtf8) (hleft : r.left ≠ []) (later : List UInt8) :
    read decode (Utf8.encode r.source ++ later) = read decode bytes := by
  obtain ⟨more, hmore⟩ := hdecode.exists_append r.source later
  have hlater := h.of_source hpulled hnone hleft more
  rw [← hmore] at hlater
  rw [hlater.read_eq, h.read_eq, hpulled.take_eq hnone, hmore,
    List.take_left' ((List.length_map _).trans (hpulled.length_source hnone hleft))]

end Reading

end Parted

/-! ### Parsing while decoding -/

/-- A program is parsed while its text is decoded: the window is asked for some lexemes and what
comes next, as far as these determine the result, and no further. -/
def Parses (pulls : List (Except ReadFault Char)) (result : Except ParseError Program)
    (w : Window) : Prop :=
  ∃ l reading, Feeds Window.next (.ofPulls pulls) l reading w ∧
    Program.DeterminedBy l reading result

theorem exists_parses (pulls : List (Except ReadFault Char)) : ∃ result w passed rest,
    Parses pulls result w ∧ Parted pulls result passed rest ∧
      w.recorder.Pulled pulls (passed.length + 2) := by
  obtain ⟨l, reading, c', hfeeds, hresult⟩ :=
    Program.exists_determinedBy (Utf8.characters pulls)
  obtain ⟨w, hfeeds', hat⟩ := (Window.at_ofPulls pulls).feeds hfeeds
  obtain ⟨passed, hcharacters, hoffset, hpulled⟩ := hat.exists_passed
  refine ⟨_, w, passed, c'.rest, ⟨l, reading, hfeeds', hresult⟩,
    ⟨hcharacters, l, reading, hresult, ?_⟩, hpulled⟩
  rw [← hcharacters, ← hoffset]
  exact hfeeds

/-- **How a program is parsed** is determined by the pulls. -/
theorem Parses.unique {pulls : List (Except ReadFault Char)}
    {result result' : Except ParseError Program} {w w' : Window} (h : Parses pulls result w)
    (h' : Parses pulls result' w') : result' = result ∧ w' = w := by
  obtain ⟨l, reading, hfeeds, hresult⟩ := h
  obtain ⟨l', reading', hfeeds', hresult'⟩ := h'
  obtain ⟨c, hcursor, -⟩ := (Window.at_ofPulls pulls).of_feeds hfeeds
  obtain ⟨c', hcursor', -⟩ := (Window.at_ofPulls pulls).of_feeds hfeeds'
  obtain ⟨s, hs, htakes⟩ := hresult _ Program.token_ne_eof (Cursor.startsWith_of_feeds hcursor 0)
  obtain ⟨s', hs', htakes'⟩ :=
    hresult' _ Program.token_ne_eof (Cursor.startsWith_of_feeds hcursor' 0)
  -- the parser runs on one and the same stream, so it has taken the same lexemes
  have hsame := hs'.symm.trans hs
  obtain rfl : result' = result := by simpa using congrArg withoutState hsame
  obtain rfl : s' = s := by simpa using congrArg endState hsame
  obtain rfl : l' = l :=
    List.append_cancel_right (htakes'.lexemes_eq.symm.trans htakes.lexemes_eq)
  exact ⟨rfl, (hfeeds.unique hfeeds').2⟩

/-! ### Running files -/

/-- What a program gives and leaves, as the outcome of running a file. -/
def outcome (source : List Char) (program : Program) (scope : Ref .scope) (store : Store) :
    Except Failure Value × Store :=
  match Eval.program scope program store with
  | .ok value store => (.ok value, store)
  | .error error store => (.error (.runtimeError source error), store)

variable {decode : Decoder} {bytes : List UInt8} {source : List Char} (scope : Ref .scope)
  (store : Store)

theorem run_of_error {failure : Failure} (h : read decode bytes = .error failure) :
    runWith decode (.ok bytes) scope store = (.error failure, store) := by
  rw [runWith, h]

theorem run_of_ok {program : Program} (h : read decode bytes = .ok (source, program)) :
    runWith decode (.ok bytes) scope store = outcome source program scope store := by
  rw [runWith, h]
  dsimp only
  unfold outcome
  cases Eval.program scope program store <;> rfl

/-- A file that is an encoded text is parsed and evaluated like this text. -/
theorem run_encode (hdecode : decode.DecodesUtf8) (text : List Char) :
    match Program.parse (String.ofList text) with
    | .ok program =>
      runWith decode (.ok (Utf8.encode text)) scope store = outcome text program scope store
    | .error error => ∃ source, source <+: text ∧
      runWith decode (.ok (Utf8.encode text)) scope store =
        (.error (.syntaxError source error), store) := by
  obtain ⟨result, w, passed, rest, -, hparted, hpulled⟩ := exists_parses (decode (Utf8.encode text))
  have htext := hdecode.valid text
  -- an encoded text has no fault, so the recorder has seen none
  have hnone : w.recorder.fault? = none := by
    rw [hpulled.fault?_eq, htext, ← List.map_take, Utf8.lastFault?_map_ok]
  have hsource : w.recorder.source = passed ++ rest.take 2 := hparted.source_eq hpulled hnone
  have hparts : text = passed ++ rest := by
    rw [← hparted.characters_eq, htext, Utf8.characters_map_ok]
  have hread := hparted.read_of_none hpulled hnone
  have hparse := hparted.parse_eq
  rw [htext, Utf8.characters_map_ok] at hparse
  rw [hparse]
  cases result with
  | ok program =>
    obtain ⟨l, reading, hresult, hfeeds⟩ := hparted.exists_feeds
    -- a program is found at the end of the text only, where nothing is left to record
    obtain rfl : rest = [] := hresult.rest_eq_nil hfeeds
    rw [hparts.trans hsource.symm] at hread ⊢
    exact run_of_ok scope store hread
  | error error =>
    refine ⟨w.recorder.source, ?_, run_of_error scope store hread⟩
    rw [hsource, hparts]
    exact List.prefix_append_right_inj _ |>.2 (List.take_prefix 2 rest)

/-- **A file is run while it is decoded**, by whatever decoder of UTF-8. There is one way to parse
it so, and this tells the outcome. If a fault has been pulled by then, the last one is the failure,
whatever the parser has found. If none has been and the parser has found a program, the bytes are an
encoded text, and the program of this text is evaluated. If none has been and the parser has found
an error, that is the error of parsing just the characters decoded so far, and any other bytes after
them give the same. A failure of either kind leaves the store as it was. So a file that is an
encoded text has the outcome of parsing and evaluating this text. -/
theorem run_while_decoding {decode : Decoder} (hdecode : decode.DecodesUtf8) (bytes : List UInt8)
    (scope : Ref .scope) (store : Store) :
    ∃ result w, Parses (decode bytes) result w ∧
      (∀ result' w', Parses (decode bytes) result' w' → result' = result ∧ w' = w) ∧
      (match w.recorder.fault?, result with
        | some fault, _ =>
          runWith decode (.ok bytes) scope store = (.error (.unreadable fault), store)
        | none, .ok program =>
          bytes = Utf8.encode w.recorder.source ∧
          Program.parse (String.ofList w.recorder.source) = .ok program ∧
          runWith decode (.ok bytes) scope store = outcome w.recorder.source program scope store
        | none, .error error => ∃ rest,
          bytes = Utf8.encode w.recorder.source ++ rest ∧
          Program.parse (String.ofList w.recorder.source) = .error error ∧
          runWith decode (.ok bytes) scope store =
            (.error (.syntaxError w.recorder.source error), store) ∧
          (rest ≠ [] → ∀ later,
            runWith decode (.ok (Utf8.encode w.recorder.source ++ later)) scope store =
              (.error (.syntaxError w.recorder.source error), store))) ∧
      ∀ text, bytes = Utf8.encode text →
        match Program.parse (String.ofList text) with
        | .ok program => runWith decode (.ok bytes) scope store = outcome text program scope store
        | .error error => ∃ source, source <+: text ∧
          runWith decode (.ok bytes) scope store = (.error (.syntaxError source error), store) := by
  obtain ⟨result, w, passed, rest, hparses, hparted, hpulled⟩ := exists_parses (decode bytes)
  refine ⟨result, w, hparses, fun _ _ h => hparses.unique h, ?_, ?_⟩
  · cases hfault : w.recorder.fault? with
    | some fault => exact run_of_error scope store (hparted.read_of_fault hpulled hfault)
    | none =>
      have hread := hparted.read_of_none hpulled hfault
      have hparse := hparted.parse_source hpulled hfault
      -- without fault the recorder holds the characters that the bytes begin with
      obtain ⟨bytes', hbytes, hend⟩ := hdecode.exists_of_eq (hpulled.eq_append hfault)
      cases result with
      | ok program =>
        rw [hend (hparted.left_eq_nil hpulled hfault rfl), List.append_nil] at hbytes
        exact ⟨hbytes, hparse, run_of_ok scope store hread⟩
      | error error =>
        refine ⟨bytes', hbytes, hparse, run_of_error scope store hread, fun hmore later => ?_⟩
        -- bytes that the parser has not asked for make no difference to it
        have hlater := hparted.read_later hpulled hfault hdecode (fun h => hmore (hend h)) later
        exact run_of_error scope store (hlater.trans hread)
  · rintro text rfl
    exact run_encode scope store hdecode text

/-- A closing parenthesis, a blank, and a byte of no character, which is still among the pulls
ahead. -/
theorem run_while_decoding_fault :
    let bytes : List UInt8 := [41, 32, 255]
    let (scope, store) := Store.empty.addRoot
    (run (.ok bytes) scope store).1 = .error (.unreadable .invalidData) ∧
      ∃ result w, Parses (Utf8.decoder bytes) result w ∧ w.recorder.fault? = some .invalidData := by
  intro bytes
  have hrun : (runWith Utf8.decoder (.ok bytes) Store.empty.addRoot.1 Store.empty.addRoot.2).1 =
      .error (.unreadable .invalidData) := by
    decide +kernel
  obtain ⟨result, w, hparses, -, hcases, -⟩ :=
    run_while_decoding Utf8.decodesUtf8_decoder bytes Store.empty.addRoot.1 Store.empty.addRoot.2
  refine ⟨hrun, result, w, hparses, ?_⟩
  cases hfault : w.recorder.fault? with
  | some fault =>
    rw [hfault] at hcases
    rw [hcases] at hrun
    cases hrun
    rfl
  -- without a fault the run would have ended in another way
  | none =>
    rw [hfault] at hcases
    cases result with
    | ok program =>
      obtain ⟨-, -, houtcome⟩ := hcases
      rw [houtcome, outcome] at hrun
      split at hrun <;> cases hrun
    | error error =>
      obtain ⟨-, -, -, hfailure, -⟩ := hcases
      rw [hfailure] at hrun
      cases hrun

-- With one blank more, that byte is behind the two pulls ahead.
example : (run (.ok [41, 32, 32, 255]) Store.empty.addRoot.1 Store.empty.addRoot.2).1 =
    .error (.syntaxError [')', ' ', ' '] ⟨.expectedExpression (.symbol .rightParen), 0, 1⟩) := by
  decide +kernel

end File

end Script

import Script.Proofs.Grammar
import Script.Proofs.Lexeme.Tiling

/-!
# Lexemes stand in order

The lexemes of a text take some bytes each, and none begins before the one in front of it has ended;
all of them end before the lexical error that the text may have. Their ends are offsets between
characters, so every span from one lexeme to another can be marked in the text. Offsets of 32 bits
tell so in texts shorter than 4 GiB.

* `InOrder`: lexemes in order between two offsets;
* `Text.Marks`: a span that can be marked in a text;
* `LexemeStream.placed_ofChars`: the lexemes of a text, and how they end.
-/

namespace Script

open Text (byteLength)

/-! ### Order -/

/-- **Lexemes in order between two offsets**: each takes some bytes, after those in front of it. -/
inductive InOrder : Nat → List Lexeme → Nat → Prop where
  | nil {a b : Nat} (h : a ≤ b) : InOrder a [] b
  | cons {a b : Nat} {x : Lexeme} {l : List Lexeme} (hstart : a ≤ x.span.start.toNat)
      (hbytes : x.span.start.toNat < x.span.stop.toNat)
      (hrest : InOrder x.span.stop.toNat l b) :
      InOrder a (x :: l) b

namespace InOrder

variable {a b c : Nat} {x : Lexeme} {l l' : List Lexeme}

theorem le (h : InOrder a l b) : a ≤ b := by
  induction h with
  | nil h => exact h
  | cons hstart hbytes _ ih => omega

theorem weaken {a' : Nat} (h : InOrder a l b) (hle : a' ≤ a) : InOrder a' l b := by
  cases h with
  | nil h => exact .nil (Nat.le_trans hle h)
  | cons hstart hbytes hrest => exact .cons (Nat.le_trans hle hstart) hbytes hrest

/-- The first of some lexemes end where the others may begin. -/
theorem split (h : InOrder a (l ++ l') c) : ∃ b, InOrder a l b ∧ InOrder b l' c := by
  induction l generalizing a with
  | nil => exact ⟨a, .nil (Nat.le_refl a), h⟩
  | cons x l ih =>
    cases h with
    | cons hstart hbytes hrest =>
      obtain ⟨b, hl, hl'⟩ := ih hrest
      exact ⟨b, .cons hstart hbytes hl, hl'⟩

/-- A lexeme lies between the two offsets, and takes some bytes. -/
theorem of_mem (h : InOrder a l b) (hx : x ∈ l) :
    a ≤ x.span.start.toNat ∧ x.span.start.toNat < x.span.stop.toNat ∧
      x.span.stop.toNat ≤ b := by
  induction h with
  | nil => cases hx
  | @cons a b y l hstart hbytes hrest ih =>
    rcases List.mem_cons.1 hx with rfl | hx
    · exact ⟨hstart, hbytes, hrest.le⟩
    · obtain ⟨hle, hlt, hstop⟩ := ih hx
      exact ⟨by omega, hlt, hstop⟩

/-- Where the last of some lexemes ends is between the two offsets. -/
theorem stopAfter_le {stop : UInt32} (h : InOrder stop.toNat l b) :
    (Grammar.stopAfter stop l).toNat ≤ b := by
  induction l generalizing stop with
  | nil => exact h.le
  | cons x l ih =>
    cases h with
    | cons _ _ hrest => exact ih hrest

end InOrder

/-! ### Spans that can be marked -/

namespace Text

variable {cs : List Char}

theorem IsBoundary.le {offset : Nat} (h : IsBoundary cs offset) : offset ≤ byteLength cs := by
  obtain ⟨before, after, rfl, rfl⟩ := h
  rw [byteLength_append]
  exact Nat.le_add_right _ _

theorem isBoundary_zero (cs : List Char) : IsBoundary cs 0 :=
  ⟨[], cs, rfl, rfl⟩

theorem isBoundary_byteLength (cs : List Char) : IsBoundary cs (byteLength cs) :=
  ⟨cs, [], (List.append_nil cs).symm, rfl⟩

/-- **A span can be marked in a text**: it does not end before it starts, nor after the text, and
both of its ends are between two characters. -/
structure Marks (cs : List Char) (span : Span) : Prop where
  start_le_stop : span.start ≤ span.stop
  stop_le : span.stop.toNat ≤ byteLength cs
  start_boundary : IsBoundary cs span.start.toNat
  stop_boundary : IsBoundary cs span.stop.toNat

theorem marks_point {offset : UInt32} (h : IsBoundary cs offset.toNat) :
    Marks cs (.point offset) :=
  ⟨UInt32.le_refl offset, h.le, h, h⟩

/-- From the start of one span to the end of another. -/
theorem Marks.through {span span' : Span} (h : Marks cs span) (h' : Marks cs span')
    (hle : span.start ≤ span'.stop) : Marks cs ⟨span.start, span'.stop⟩ :=
  ⟨hle, h'.stop_le, h.start_boundary, h'.stop_boundary⟩

end Text

/-! ### The lexemes of a text -/

/-- Only the end of a text is spelled by no character. -/
theorem Denotes.slice_ne_nil {slice rest : List Char} {token : Token}
    (h : Denotes slice rest (.ok token)) (heof : token ≠ .eof) : slice ≠ [] := by
  generalize hwhat : (.ok token : Except LexicalCause Token) = what at h
  cases h with
  | keyword word => cases word <;> decide
  | name hslice =>
    obtain ⟨⟨c, rest, rfl, -⟩, -⟩ := hslice
    exact List.cons_ne_nil c rest
  | integer hne => exact hne
  | string | comment => exact List.cons_ne_nil _ _
  | symbol sign => cases sign <;> exact List.cons_ne_nil _ _
  | eof =>
    cases hwhat
    exact absurd rfl heof
  | _ => cases hwhat

/-- Where the lexemes of a stream end: at the end of its text, or at its lexical error. -/
def Ending.span : Ending → Span
  | .eof offset => .point offset
  | .broken error => error.span

/-- The lexemes from an offset of a text on stand in order up to where they end, and all of them
can be marked in the text. -/
structure LexemeStream.Placed (cs : List Char) (offset : Nat) (stream : LexemeStream) : Prop where
  inOrder : InOrder offset stream.lexemes stream.ending.span.start.toNat
  lexemes : ∀ x ∈ stream.lexemes, Text.Marks cs x.span
  ending : Text.Marks cs stream.ending.span
  eof : ∀ stop, stream.ending = .eof stop → stop.toNat = byteLength cs

namespace Cursor

/-- A cursor stands in a text, between two of its characters. -/
def In (cs : List Char) (c : Cursor) : Prop :=
  ∃ before, cs = before ++ c.rest ∧ c.offset = byteLength before

variable {cs : List Char} {c : Cursor}

theorem In.offset_lt (h : In cs c) (hlt : byteLength cs < 2 ^ 32) : c.offset < 2 ^ 32 := by
  obtain ⟨before, rfl, hoffset⟩ := h
  rw [Text.byteLength_append] at hlt
  omega

/-- A reading can be marked in the text that it is read from, and the cursor goes on in it. -/
theorem In.next (h : In cs c) (hlt : byteLength cs < 2 ^ 32) :
    In cs c.next.2 ∧ Text.Marks cs c.next.1.span ∧
    c.offset ≤ c.next.1.span.start.toNat ∧ c.next.1.span.stop.toNat = c.next.2.offset ∧
    ∀ x, c.next.1 = .ok x → x.token ≠ .eof → x.span.start.toNat < x.span.stop.toNat := by
  obtain ⟨before, hcs, hoffset⟩ := h
  obtain ⟨gap, slice, what, hrest, hnext, hreading, hreads⟩ := exists_reads_next c
  have hsplit : cs = before ++ gap ++ slice ++ c.next.2.rest := by
    rw [hcs, hrest]
    simp
  have hstart : c.offset + byteLength gap = byteLength (before ++ gap) := by
    rw [hoffset, Text.byteLength_append]
  have hstop : c.next.2.offset = byteLength (before ++ gap ++ slice) := by
    rw [hnext, hstart, Text.byteLength_append (before ++ gap)]
  have hboundary : Text.IsBoundary cs (byteLength (before ++ gap ++ slice)) :=
    ⟨_, _, hsplit, rfl⟩
  have hle : byteLength (before ++ gap) ≤ byteLength (before ++ gap ++ slice) := by
    rw [Text.byteLength_append (before ++ gap)]
    exact Nat.le_add_right _ _
  have hranges : c.next.1.span.Ranges (byteLength (before ++ gap))
      (byteLength (before ++ gap ++ slice)) := by
    rw [hreading, Reading.span_ofSlice, hstart, hstop]
    exact Span.ranges_between hle (Nat.lt_of_le_of_lt hboundary.le hlt)
  refine ⟨⟨_, hsplit, hstop⟩, ⟨?_, ?_, ?_, ?_⟩, ?_, ?_, ?_⟩
  · rw [UInt32.le_iff_toNat_le, hranges.start_eq, hranges.stop_eq]
    exact hle
  · rw [hranges.stop_eq]
    exact hboundary.le
  · rw [hranges.start_eq]
    exact ⟨before ++ gap, slice ++ c.next.2.rest,
      by rw [hsplit, List.append_assoc (before ++ gap)], rfl⟩
  · rw [hranges.stop_eq]
    exact hboundary
  · rw [hranges.start_eq, ← hstart]
    exact Nat.le_add_right _ _
  · rw [hranges.stop_eq, hstop]
  · intro x hx heof
    -- a lexeme is spelled by some characters
    have hslice : slice ≠ [] := by
      rw [hreading] at hx
      cases what with
      | error cause => cases hx
      | ok token =>
        obtain rfl : _ = x := Except.ok.inj hx
        cases hreads with
        | denotes _ h => exact h.slice_ne_nil heof
    have hpos := byteLength_pos hslice
    rw [hx] at hranges
    obtain ⟨hxstart, hxstop⟩ : x.span.Ranges _ _ := hranges
    rw [hxstart, hxstop, Text.byteLength_append (before ++ gap)]
    exact Nat.lt_add_of_pos_right hpos

/-- The lexemes that a cursor reads are placed in its text. -/
theorem placed_readings (hlt : byteLength cs < 2 ^ 32) (c : Cursor) (h : In cs c)
    (offset : UInt32) : (LexemeStream.ofReadings offset c.readings).Placed cs c.offset := by
  obtain ⟨hin, hmarks, hstart, hstop, hbytes⟩ := h.next hlt
  rcases hnext : c.next with ⟨reading, c'⟩
  rw [ofReadings_readings offset hnext]
  rw [hnext] at hin hmarks hstart hstop hbytes
  rcases reading with error | ⟨token, span⟩
  · exact ⟨.nil hstart, List.forall_mem_nil _, hmarks, by rintro _ ⟨⟩⟩
  by_cases heof : token = .eof
  · subst heof
    -- nothing is left, so the end of the text is where the cursor stands
    obtain ⟨hrest, hpoint⟩ := eq_of_next_eof hnext
    obtain ⟨before, hcs, hoffset⟩ := hin
    rw [hrest, List.append_nil] at hcs
    subst hcs
    have hend : span.start.toNat = byteLength cs := by
      rw [← hoffset, ← hstop, show (Reading.span (.ok ⟨.eof, span⟩)) = span from rfl, hpoint]
      rfl
    refine ⟨.nil hstart, List.forall_mem_nil _, ?_, ?_⟩
    · exact Text.marks_point hmarks.start_boundary
    · rintro stop ⟨⟩
      exact hend
  · have hshorter := length_next_lt_of_ok hnext heof
    have hpos : span.start.toNat < span.stop.toNat := hbytes _ rfl heof
    have ih := placed_readings hlt c' hin span.stop
    have hrest : c'.offset = span.stop.toNat := hstop.symm
    by_cases hcomment : token = .comment
    · subst hcomment
      refine ⟨ih.inOrder.weaken ?_, ih.lexemes, ih.ending, ih.eof⟩
      have hle : c.offset ≤ span.start.toNat := hstart
      omega
    · rw [LexemeStream.ofReadings_cons offset heof hcomment]
      exact ⟨.cons hstart hpos (ih.inOrder.weaken (Nat.le_of_eq hrest.symm)),
        List.forall_mem_cons.2 ⟨hmarks, ih.lexemes⟩, ih.ending, ih.eof⟩
termination_by c.rest.length

end Cursor

/-- **The lexemes of a text are placed in it.** -/
theorem LexemeStream.placed_ofChars {cs : List Char} (hlt : byteLength cs < 2 ^ 32) :
    (ofChars cs).Placed cs 0 :=
  Cursor.placed_readings hlt (.ofChars cs) ⟨[], rfl, rfl⟩ 0

end Script

import Script.Proofs.Lexeme.Lines
import Script.Proofs.Lexeme.Prefix
import Script.Proofs.Text.Utf8

/-!
# Comments as blanks

Spans of a text can be blanked out: every byte in them becomes a space. If these are the first
comments of the text, or all of them, then its stream has the same lexemes at the same spans and
ends the same, and only those comments are gone. A comment between two lexemes is one more blank
then; a lexeme right in front of a comment has a space after it, with which nothing goes on.

* `Text.blankOut`: a text with some spans blanked out, and `Text.encode_blankOut`: what becomes of
  its bytes;
* `Cursor.exists_next_before_space`: a lexeme is read the same in front of a space;
* `LexemeStream.ofChars_blankOut`: the stream of a text with its first comments blanked out.
-/

namespace Script

open Text (byteLength isBlank)

/-- A span covers an offset of a byte in it. -/
def Span.Covers (span : Span) (offset : Nat) : Prop :=
  span.start.toNat ≤ offset ∧ offset < span.stop.toNat

instance (span : Span) : DecidablePred span.Covers :=
  fun offset => inferInstanceAs (Decidable (span.start.toNat ≤ offset ∧ offset < span.stop.toNat))

namespace Text

/-! ### Blanking out -/

/-- The characters from an offset on, with some spans blanked out: a character that begins in
one of them gives way to as many spaces as it has bytes. -/
def blankOut (spans : List Span) : Nat → List Char → List Char
  | _, [] => []
  | offset, c :: cs =>
    (if ∃ span ∈ spans, span.Covers offset then List.replicate c.utf8Size ' ' else [c]) ++
      blankOut spans (offset + c.utf8Size) cs

variable {spans : List Span}

theorem blankOut_append (a b : List Char) (offset : Nat) :
    blankOut spans offset (a ++ b) =
      blankOut spans offset a ++ blankOut spans (offset + byteLength a) b := by
  induction a generalizing offset with
  | nil => rfl
  | cons c a ih =>
    rw [List.cons_append, blankOut, blankOut, ih, byteLength_cons, List.append_assoc,
      Nat.add_assoc]

/-- The number of bytes stays as it is. -/
theorem byteLength_blankOut (cs : List Char) (offset : Nat) :
    byteLength (blankOut spans offset cs) = byteLength cs := by
  induction cs generalizing offset with
  | nil => rfl
  | cons c cs ih =>
    rw [blankOut, byteLength_append, ih, byteLength_cons]
    split
    · rw [byteLength_replicate _ (c := ' ') rfl]
    · rfl

/-- Outside of all spans a text stays as it is. -/
theorem blankOut_eq_self {cs : List Char} {offset : Nat}
    (h : ∀ span ∈ spans, span.stop.toNat ≤ offset ∨
      offset + byteLength cs ≤ span.start.toNat) :
    blankOut spans offset cs = cs := by
  induction cs generalizing offset with
  | nil => rfl
  | cons c cs ih =>
    have hpos := c.utf8Size_pos
    rw [byteLength_cons] at h
    have huncovered : ¬ ∃ span ∈ spans, span.Covers offset := by
      rintro ⟨span, hspan, hstart, hstop⟩
      have hout := h span hspan
      omega
    have hrest : blankOut spans (offset + c.utf8Size) cs = cs := by
      refine ih fun span hspan => ?_
      have hout := h span hspan
      omega
    rw [blankOut, if_neg huncovered, hrest]
    rfl

/-- Inside of a span a text becomes blank, and blanks stay blank. -/
theorem isBlank_of_mem_blankOut {cs : List Char} {offset : Nat}
    (h : (∀ c ∈ cs, isBlank c = true) ∨
      ∃ span ∈ spans, span.start.toNat ≤ offset ∧ offset + byteLength cs ≤ span.stop.toNat) :
    ∀ c ∈ blankOut spans offset cs, isBlank c = true := by
  induction cs generalizing offset with
  | nil => exact List.forall_mem_nil _
  | cons c cs ih =>
    have hpos := c.utf8Size_pos
    rw [byteLength_cons] at h
    rw [blankOut]
    refine List.forall_mem_append.2 ⟨?_, ih ?_⟩
    · split
      · intro x hx
        obtain rfl := List.eq_of_mem_replicate hx
        decide
      · -- an uncovered character stays, so it must have been blank before
        next huncovered =>
        rcases h with hblank | ⟨span, hspan, hstart, hstop⟩
        · exact List.forall_mem_singleton.2 (hblank c List.mem_cons_self)
        · exact absurd ⟨span, hspan, hstart, by omega⟩ huncovered
    · refine h.imp (fun hblank x hx => hblank x (List.mem_cons_of_mem c hx)) ?_
      rintro ⟨span, hspan, hstart, hstop⟩
      exact ⟨span, hspan, by omega, by omega⟩

/-- A text begins as before, or with a space. -/
theorem head?_blankOut (cs : List Char) (offset : Nat) :
    (blankOut spans offset cs).head? = cs.head? ∨
      (blankOut spans offset cs).head? = some ' ' := by
  cases cs with
  | nil => exact .inl rfl
  | cons c cs =>
    rw [blankOut]
    split
    · obtain ⟨n, hn⟩ : ∃ n, c.utf8Size = n + 1 := ⟨c.utf8Size - 1, by have := c.utf8Size_pos; omega⟩
      rw [hn]
      exact .inr rfl
    · exact .inl rfl

/-! ### Bytes -/

/-- No span begins or ends inside of a character, if it can be marked. -/
theorem IsBoundary.le_or_le {before rest : List Char} {c : Char} {offset : Nat}
    (h : IsBoundary (before ++ c :: rest) offset) :
    offset ≤ byteLength before ∨ byteLength before + c.utf8Size ≤ offset := by
  obtain ⟨before', after, hsplit, rfl⟩ := h
  rcases List.append_eq_append_iff.1 hsplit with ⟨more, rfl, hmore⟩ | ⟨more, rfl, -⟩
  · cases more with
    | nil =>
      rw [List.append_nil]
      exact .inl (Nat.le_refl _)
    | cons x more =>
      obtain ⟨rfl, -⟩ := List.cons.inj hmore
      rw [byteLength_append, byteLength_cons]
      exact .inr (by omega)
  · rw [byteLength_append]
    exact .inl (Nat.le_add_right _ _)

/-- A byte with some spans blanked out, by the offset at which it stands. -/
def blankByte (spans : List Span) (offset : Nat) (byte : UInt8) : UInt8 :=
  if ∃ span ∈ spans, span.Covers offset then 0x20 else byte

theorem encode_replicate_space (n : Nat) :
    Utf8.encode (List.replicate n ' ') = List.replicate n 0x20 := by
  induction n with
  | zero => rfl
  | succ n ih =>
    rw [List.replicate_succ, List.replicate_succ, Utf8.encode_cons, ih]
    rfl

/-- The bytes of a character are blanked out together. -/
theorem mapIdx_blankByte (c : Char) (offset : Nat)
    (h : ∀ span ∈ spans, ∀ i < c.utf8Size, span.Covers (offset + i) ↔ span.Covers offset) :
    (String.utf8EncodeChar c).mapIdx (fun i byte => blankByte spans (offset + i) byte) =
      Utf8.encode (if ∃ span ∈ spans, span.Covers offset then List.replicate c.utf8Size ' '
        else [c]) := by
  have hbyte (i : Nat) (hi : i < (String.utf8EncodeChar c).length) (byte : UInt8) :
      blankByte spans (offset + i) byte = blankByte spans offset byte := by
    rw [String.length_utf8EncodeChar] at hi
    have hcovers :
        (∃ span ∈ spans, span.Covers (offset + i)) ↔ ∃ span ∈ spans, span.Covers offset :=
      exists_congr fun span => and_congr_right fun hspan => h span hspan i hi
    simp only [blankByte, hcovers]
  by_cases hcovered : ∃ span ∈ spans, span.Covers offset
  · rw [if_pos hcovered, encode_replicate_space]
    refine List.ext_getElem (by simp) fun i hi _ => ?_
    rw [List.getElem_mapIdx, hbyte i (by simpa using hi), blankByte, if_pos hcovered,
      List.getElem_replicate]
  · rw [if_neg hcovered, Utf8.encode_cons, Utf8.encode_nil, List.append_nil]
    refine List.ext_getElem (by simp) fun i hi _ => ?_
    rw [List.getElem_mapIdx, hbyte i (by simpa using hi), blankByte, if_neg hcovered]

theorem encode_blankOut_append (before cs : List Char)
    (h : ∀ span ∈ spans, Marks (before ++ cs) span) :
    Utf8.encode (blankOut spans (byteLength before) cs) =
      (Utf8.encode cs).mapIdx fun i byte => blankByte spans (byteLength before + i) byte := by
  induction cs generalizing before with
  | nil => rfl
  | cons c cs ih =>
    -- a span that can be marked covers all bytes of a character or none
    have hcovers (span : Span) (hspan : span ∈ spans) (i : Nat) (hi : i < c.utf8Size) :
        span.Covers (byteLength before + i) ↔ span.Covers (byteLength before) := by
      have hstart := (h span hspan).start_boundary.le_or_le
      have hstop := (h span hspan).stop_boundary.le_or_le
      unfold Span.Covers
      omega
    have hlength : byteLength before + c.utf8Size = byteLength (before ++ [c]) := by
      rw [byteLength_append]
      rfl
    have hrest : ∀ span ∈ spans, Marks (before ++ [c] ++ cs) span := by
      rw [List.append_assoc]
      exact h
    rw [blankOut, Utf8.encode_append, Utf8.encode_cons, List.mapIdx_append,
      mapIdx_blankByte c _ hcovers, hlength, ih (before ++ [c]) hrest, ← hlength]
    simp only [String.length_utf8EncodeChar, Nat.add_assoc, Nat.add_comm c.utf8Size]

/-- **Blanking out some spans of a text** makes spaces of the bytes in them and keeps the others. -/
theorem encode_blankOut {cs : List Char} (h : ∀ span ∈ spans, Marks cs span) :
    Utf8.encode (blankOut spans 0 cs) = (Utf8.encode cs).mapIdx (blankByte spans) := by
  have hbytes := encode_blankOut_append [] cs h
  simpa only [byteLength_nil, Nat.zero_add] using hbytes

end Text

/-! ### Readings in front of blanks -/

namespace Cursor

/-- With a space no lexeme goes on, but for a comment. -/
theorem next_of_denotes_space {slice rest : List Char} {token : Token}
    (h : Denotes slice rest (.ok token)) (heof : token ≠ .eof) (hcomment : token ≠ .comment)
    (offset : Nat) (more : List Char) :
    next ⟨offset, slice ++ ' ' :: more⟩ =
      (.ok ⟨token, .between offset (offset + byteLength slice)⟩,
        ⟨offset + byteLength slice, ' ' :: more⟩) := by
  have hword : ∀ c ∈ (' ' :: more).head?, inWord c = false := by
    rintro _ ⟨⟩
    rfl
  have hdigit : ∀ c ∈ (' ' :: more).head?, c.isDigit = false := by
    rintro _ ⟨⟩
    rfl
  cases h with
  | keyword word _ => exact next_of_denotes (.keyword word hword) offset
  | name hslice hkeyword _ => exact next_of_denotes (.name hslice hkeyword hword) offset
  | integer hne hslice _ hvalue => exact next_of_denotes (.integer hne hslice hdigit hvalue) offset
  | string hbody => exact next_of_denotes (.string hbody) offset
  | comment => exact absurd rfl hcomment
  | symbol sign _ _ =>
    -- no longer symbol begins with this one and a space
    refine next_symbol sign offset (' ' :: more) fun c hc => ?_
    obtain rfl := Option.some.inj hc
    cases sign <;> rfl
  | eof => exact absurd rfl heof

/-- **A lexeme is read the same** in front of any text that begins with the same character, or with
a space. -/
theorem exists_next_before_space {c c' : Cursor} {x : Lexeme} (hnext : c.next = (.ok x, c'))
    (heof : x.token ≠ .eof) (hcomment : x.token ≠ .comment) :
    ∃ taken, c.rest = taken ++ c'.rest ∧ c'.offset = c.offset + byteLength taken ∧
      ∀ rest, rest.head? = c'.rest.head? ∨ rest.head? = some ' ' →
        next ⟨c.offset, taken ++ rest⟩ = (.ok x, ⟨c'.offset, rest⟩) := by
  obtain ⟨taken, hrest, hoffset, hsame⟩ := exists_looksAhead_next c
  rw [hnext] at hrest hoffset hsame
  refine ⟨taken, hrest, hoffset, fun rest hhead => ?_⟩
  rcases hhead with hhead | hhead
  · exact hsame rest hhead
  · obtain ⟨more, rfl⟩ := List.head?_eq_some_iff.1 hhead
    obtain ⟨gap, slice, what, hsplit, hstop, hreading, hreads⟩ := next_eq_iff.1 hnext
    obtain rfl : taken = gap ++ slice := List.append_cancel_right (hrest.symm.trans hsplit)
    cases what with
    | error cause => cases hreading
    | ok token =>
      obtain rfl := Except.ok.inj hreading
      cases hreads with
      | denotes hgap h =>
        rw [List.append_assoc, next_blanks hgap, next_of_denotes_space h heof hcomment, hstop]

/-- A comment is one more blank where it is blanked out. -/
theorem readings_blankOut_comment {c c' : Cursor} {span : Span} {spans : List Span}
    (hshort : c'.offset < 2 ^ 32) (hnext : c.next = (.ok ⟨.comment, span⟩, c'))
    (hspan : span ∈ spans) :
    readings ⟨c.offset, Text.blankOut spans c.offset c.rest⟩ =
      readings ⟨c'.offset, Text.blankOut spans c'.offset c'.rest⟩ := by
  obtain ⟨gap, slice, what, hrest, hoffset, hreading, hreads⟩ := next_eq_iff.1 hnext
  cases what with
  | error cause => cases hreading
  | ok token =>
    obtain ⟨-, rfl⟩ := Lexeme.mk.inj (Except.ok.inj hreading)
    cases hreads with
    | denotes hgap _ =>
      have hblank : ∀ x ∈ Text.blankOut spans c.offset (gap ++ slice), isBlank x = true := by
        rw [Text.blankOut_append]
        refine List.forall_mem_append.2 ⟨Text.isBlank_of_mem_blankOut (.inl hgap), ?_⟩
        obtain ⟨hstart, hstop⟩ := Span.ranges_between
          (hoffset ▸ Nat.le_add_right (c.offset + byteLength gap) _) hshort
        exact Text.isBlank_of_mem_blankOut
          (.inr ⟨_, hspan, Nat.le_of_eq hstart, by rw [hstop, hoffset]⟩)
      rw [hrest, Text.blankOut_append, readings_blanks hblank, Text.byteLength_blankOut,
        Text.byteLength_append, ← Nat.add_assoc, ← hoffset]

/-- A lexeme in front of the comments that are blanked out is read the same. -/
theorem next_blankOut {c c' : Cursor} {x : Lexeme} {spans : List Span}
    (hnext : c.next = (.ok x, c')) (heof : x.token ≠ .eof) (hcomment : x.token ≠ .comment)
    (hspans : ∀ span ∈ spans, span.stop.toNat ≤ c.offset ∨ c'.offset ≤ span.start.toNat) :
    next ⟨c.offset, Text.blankOut spans c.offset c.rest⟩ =
      (.ok x, ⟨c'.offset, Text.blankOut spans c'.offset c'.rest⟩) := by
  obtain ⟨taken, hrest, hoffset, hsame⟩ := exists_next_before_space hnext heof hcomment
  have htaken : Text.blankOut spans c.offset taken = taken :=
    Text.blankOut_eq_self (hoffset ▸ hspans)
  rw [hrest, Text.blankOut_append, htaken, ← hoffset]
  exact hsame _ (Text.head?_blankOut _ _)

end Cursor

/-! ### Streams -/

namespace Cursor

open LexemeStream (ofReadings)

variable {cs : List Char} (hshort : byteLength cs < 2 ^ 32)
include hshort

/-- The comments of a text can be marked in it. -/
theorem marks_of_mem_comments (c : Cursor) (h : In cs c) (offset : UInt32) :
    ∀ comment ∈ (ofReadings offset c.readings).comments, Text.Marks cs comment.span := by
  obtain ⟨hin, hmarks, -⟩ := h.next hshort
  rcases hnext : c.next with ⟨reading, c'⟩
  rw [ofReadings_readings offset hnext]
  rw [hnext] at hin hmarks
  rcases reading with error | ⟨token, span⟩
  · exact List.forall_mem_nil _
  by_cases heof : token = .eof
  · subst heof
    exact List.forall_mem_nil _
  have hlt := length_next_lt_of_ok hnext heof
  have ih := marks_of_mem_comments c' hin span.stop
  by_cases hcomment : token = .comment
  · subst hcomment
    exact List.forall_mem_cons.2 ⟨hmarks, ih⟩
  · rw [LexemeStream.ofReadings_cons offset heof hcomment]
    exact ih
termination_by c.rest.length

/-- The stream from a place on, of whose comments the first ones are blanked out: the same
lexemes, and the other comments. -/
theorem ofReadings_blankOut (c : Cursor) (h : In cs c) (start : UInt32) {spans : List Span}
    {ahead more : List Comment}
    (hcomments : (ofReadings start c.readings).comments = ahead ++ more)
    (hahead : ∀ comment ∈ ahead, comment.span ∈ spans)
    (hspans : ∀ span ∈ spans, span.stop.toNat ≤ c.offset ∨
      ∃ comment ∈ ahead, comment.span = span) :
    ofReadings start (readings ⟨c.offset, Text.blankOut spans c.offset c.rest⟩) =
      { ofReadings start c.readings with comments := more } := by
  cases ahead with
  | nil =>
    -- with no comment ahead there is nothing to blank out
    have hself : Text.blankOut spans c.offset c.rest = c.rest :=
      Text.blankOut_eq_self fun span hspan => .inl ((hspans span hspan).resolve_right (by simp))
    rw [hself, ← List.nil_append more, ← hcomments]
  | cons first ahead =>
    obtain ⟨hin, hmarks, hstart, hstop, -⟩ := h.next hshort
    rcases hnext : c.next with ⟨reading, c'⟩
    rw [hnext] at hin hmarks hstart hstop
    rw [ofReadings_readings start hnext] at hcomments ⊢
    rcases reading with error | ⟨token, span⟩
    · cases hcomments
    by_cases heof : token = .eof
    · subst heof
      cases hcomments
    have hlt := length_next_lt_of_ok hnext heof
    have hle : c.offset ≤ c'.offset :=
      hstop ▸ Nat.le_trans hstart (UInt32.le_iff_toNat_le.1 hmarks.start_le_stop)
    by_cases hcomment : token = .comment
    · subst hcomment
      rw [LexemeStream.ofReadings_comment] at hcomments ⊢
      obtain ⟨rfl, hrest⟩ := List.cons.inj hcomments
      obtain ⟨reading, rest, hreadings⟩ :=
        List.exists_cons_of_ne_nil
          (readings_ne_nil ⟨c'.offset, Text.blankOut spans c'.offset c'.rest⟩)
      rw [readings_blankOut_comment (hin.offset_lt hshort) hnext (hahead _ List.mem_cons_self),
        hreadings, LexemeStream.ofReadings_start start span.stop, ← hreadings]
      refine ofReadings_blankOut c' hin span.stop hrest
        (fun other hother => hahead other (List.mem_cons_of_mem _ hother)) fun other hother => ?_
      rcases hspans other hother with hbefore | ⟨comment, hmem, rfl⟩
      · exact .inl (Nat.le_trans hbefore hle)
      · rcases List.mem_cons.1 hmem with rfl | hmem
        · exact .inl (Nat.le_of_eq hstop)
        · exact .inr ⟨comment, hmem, rfl⟩
    · rw [LexemeStream.ofReadings_cons start heof hcomment] at hcomments ⊢
      have hoff : ∀ other, (∃ comment ∈ first :: ahead, comment.span = other) →
          c'.offset ≤ other.start.toNat := by
        rintro _ ⟨comment, hmem, rfl⟩
        exact offset_le_of_mem_comments hshort c' hin span.stop comment
          (hcomments ▸ List.mem_append_left more hmem)
      rw [ofReadings_readings start (next_blankOut hnext heof hcomment fun other hother =>
          (hspans other hother).imp_right (hoff other)),
        LexemeStream.ofReadings_cons start heof hcomment,
        ofReadings_blankOut c' hin span.stop hcomments hahead fun other hother =>
          (hspans other hother).imp_left fun hbefore => Nat.le_trans hbefore hle]
termination_by c.rest.length

end Cursor

/-- **The stream of a text with its first comments blanked out** has the same lexemes and ends the
same, and only these comments are gone. -/
theorem LexemeStream.ofChars_blankOut {cs : List Char} (hshort : byteLength cs < 2 ^ 32)
    {passed more : List Comment} (hcomments : (ofChars cs).comments = passed ++ more) :
    ofChars (Text.blankOut (passed.map (·.span)) 0 cs) = { ofChars cs with comments := more } :=
  Cursor.ofReadings_blankOut hshort (.ofChars cs) ⟨[], rfl, rfl⟩ 0 hcomments
    (fun _ hmem => List.mem_map_of_mem hmem) fun _ hspan => .inr (List.mem_map.1 hspan)

end Script

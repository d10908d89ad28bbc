import Mathlib.Data.Nat.Find
import Script.Proofs.Lexeme.Denotation
import Script.Proofs.File.Window
import Script.Proofs.Span

/-!
# Readings tile a text

A lexer is asked for one reading after another, and goes on after errors. Then the gaps and the
slices that it reads follow one another without overlap and fill the text: each reading begins where
a gap after the one before ends, and ends strictly after it, until the end of the text is reached,
which is then read again and again. So the readings are no more than the characters, and the end.

The offsets come from the cursor. A lexer that holds two characters and counts offsets from the
lengths of those that it passes gives the same readings and stands at the same places. All of this
is told of texts shorter than 4 GiB: in longer ones the offsets of 32 bits start again.

* `Tiles`: the readings of a lexer fill a text;
* `Cursor.tiles`: those of a cursor do, and so do those from a window.
-/

namespace Script

open Text (byteLength)
open Cursor (IsEof)

/-! ### Tilings -/

/-- The span of a reading. -/
def Reading.span : Reading → Span
  | .ok x => x.span
  | .error e => e.span

namespace Lexer

variable {σ : Type} (next : σ → Reading × σ) (start : σ)

/-- A lexer after a number of readings, be they lexemes or errors. -/
def after : Nat → σ
  | 0 => start
  | k + 1 => (next (after k)).2

/-- The reading at a position of all that a lexer gives. -/
def item (k : Nat) : Reading :=
  (next (after next start k)).1

end Lexer

/-- An offset between two characters of a text, or at one of its ends. -/
def Text.IsBoundary (cs : List Char) (offset : Nat) : Prop :=
  ∃ before after, cs = before ++ after ∧ byteLength before = offset

section Tiles

open Lexer (after item)

/-- **The readings of a lexer tile a text.** The lexer stands at an offset before each reading: at
the beginning of the text before the first, and where the reading before ends before any other. -/
structure Tiles (cs : List Char) {σ : Type} (next : σ → Reading × σ) (start : σ)
    (offset : σ → Nat) : Prop where
  offset_start : offset start = 0
  offset_after : ∀ k, offset (after next start (k + 1)) = (item next start k).span.stop.toNat
  /-- A reading is what the slice at its span denotes; the gap lies between where the lexer stood
  and the slice. -/
  reads : ∀ k, ∃ before gap slice rest span what, cs = before ++ gap ++ slice ++ rest ∧
    offset (after next start k) = byteLength before ∧
    item next start k = .ofSlice span what ∧
    span.Ranges (byteLength (before ++ gap)) (byteLength (before ++ gap ++ slice)) ∧
    Reads gap slice rest what
  boundary : ∀ k, Text.IsBoundary cs (item next start k).span.start.toNat ∧
    Text.IsBoundary cs (item next start k).span.stop.toNat
  start_le_stop : ∀ k, (item next start k).span.start ≤ (item next start k).span.stop
  offset_le_start : ∀ k, offset (after next start k) ≤ (item next start k).span.start.toNat
  offset_lt_stop : ∀ k, ¬ IsEof (item next start k) →
    offset (after next start k) < (item next start k).span.stop.toNat
  /-- The end comes after at most as many readings as there are characters, and is then repeated. -/
  eof : ∃ n ≤ cs.length, (∀ k < n, ¬ IsEof (item next start k)) ∧
    ∃ span, span.Ranges (byteLength cs) (byteLength cs) ∧
      ∀ k, n ≤ k → item next start k = .ok ⟨.eof, span⟩

/-- A lexer that gives the same readings and stands at the same offsets tiles the same text. -/
theorem Tiles.congr {cs : List Char} {σ τ : Type} {next : σ → Reading × σ} {start : σ}
    {offset : σ → Nat} {next' : τ → Reading × τ} {start' : τ} {offset' : τ → Nat}
    (h : Tiles cs next start offset) (hitem : item next' start' = item next start)
    (hoffset : ∀ k, offset' (after next' start' k) = offset (after next start k)) :
    Tiles cs next' start' offset' where
  offset_start := (hoffset 0).trans h.offset_start
  offset_after k := by rw [hitem, hoffset, h.offset_after]
  reads k := by
    rw [hitem, hoffset]
    exact h.reads k
  boundary := by
    rw [hitem]
    exact h.boundary
  start_le_stop := by
    rw [hitem]
    exact h.start_le_stop
  offset_le_start k := by
    rw [hitem, hoffset]
    exact h.offset_le_start k
  offset_lt_stop k := by
    rw [hitem, hoffset]
    exact h.offset_lt_stop k
  eof := by
    rw [hitem]
    exact h.eof

end Tiles

theorem Reading.span_ofSlice (span : Span) (what : Except LexicalCause Token) :
    (Reading.ofSlice span what).span = span := by
  cases what <;> rfl

theorem Reading.stop_eq (reading : Reading) : reading.stop = reading.span.stop := by
  cases reading <;> rfl

theorem byteLength_pos {cs : List Char} (h : cs ≠ []) : 0 < byteLength cs := by
  obtain ⟨c, cs, rfl⟩ := List.exists_cons_of_ne_nil h
  have hpos := c.utf8Size_pos
  rw [Text.byteLength_cons]
  omega

/-! ### The readings of a cursor -/

namespace Cursor

open Lexer (after item)

theorem exists_reads_next (c : Cursor) : ∃ gap slice what,
    c.rest = gap ++ slice ++ c.next.2.rest ∧
    c.next.2.offset = c.offset + byteLength gap + byteLength slice ∧
    c.next.1 = .ofSlice (.between (c.offset + byteLength gap) c.next.2.offset) what ∧
    Reads gap slice c.next.2.rest what :=
  next_eq_iff.1 (Prod.ext rfl rfl)

variable (cs : List Char)

/-- After each reading a cursor stands where the reading ends. -/
theorem offset_after_succ (c : Cursor) (k : Nat) :
    .ofNat (after next c (k + 1)).offset = (item next c k).span.stop := by
  rw [← Reading.stop_eq, item, stop_next]
  rfl

/-- A cursor stands between two characters of the text, and the second of them is the next. -/
theorem exists_before (k : Nat) : ∃ before, cs = before ++ (after next (.ofChars cs) k).rest ∧
    (after next (.ofChars cs) k).offset = byteLength before := by
  induction k with
  | zero => exact ⟨[], rfl, rfl⟩
  | succ k ih =>
    obtain ⟨before, hcs, hoffset⟩ := ih
    obtain ⟨gap, slice, what, hrest, hnext, -, -⟩ :=
      exists_reads_next (after next (.ofChars cs) k)
    refine ⟨before ++ gap ++ slice, ?_, ?_⟩
    · rw [hrest] at hcs
      simpa [after] using hcs
    · rw [Text.byteLength_append, Text.byteLength_append, ← hoffset]
      exact hnext

/-- What a reading is about: the gap and the slice that stand before the cursor. -/
theorem exists_reads_item (k : Nat) : ∃ before gap slice rest what,
    cs = before ++ gap ++ slice ++ rest ∧
    (after next (.ofChars cs) k).rest = gap ++ slice ++ rest ∧
    (after next (.ofChars cs) (k + 1)).rest = rest ∧
    (after next (.ofChars cs) k).offset = byteLength before ∧
    (after next (.ofChars cs) (k + 1)).offset = byteLength (before ++ gap ++ slice) ∧
    item next (.ofChars cs) k =
      .ofSlice (.between (byteLength (before ++ gap)) (byteLength (before ++ gap ++ slice))) what ∧
    Reads gap slice rest what := by
  obtain ⟨before, hcs, hoffset⟩ := exists_before cs k
  obtain ⟨gap, slice, what, hrest, hnext, hreading, hreads⟩ :=
    exists_reads_next (after next (.ofChars cs) k)
  have hstart : (after next (.ofChars cs) k).offset + byteLength gap =
      byteLength (before ++ gap) := by
    rw [hoffset, Text.byteLength_append]
  have hstop : (after next (.ofChars cs) k).next.2.offset =
      byteLength (before ++ gap ++ slice) := by
    rw [hnext, hstart, Text.byteLength_append (before ++ gap)]
  refine ⟨before, gap, slice, _, what, ?_, hrest, rfl, hoffset, hstop, ?_, hreads⟩
  · rw [hrest] at hcs
    simpa using hcs
  · rw [← hstart, ← hstop]
    exact hreading

/-- As long as the end is not reached, each reading takes a character. -/
theorem length_rest_after {k : Nat} (h : ∀ j < k, ¬ IsEof (item next (.ofChars cs) j)) :
    (after next (.ofChars cs) k).rest.length + k ≤ cs.length := by
  induction k with
  | zero => exact Nat.le_refl _
  | succ k ih =>
    have hle := ih fun j hj => h j (Nat.lt_succ_of_lt hj)
    have hlt := (after next (.ofChars cs) k).length_next_lt.resolve_left (h k (Nat.lt_succ_self k))
    show (after next (.ofChars cs) k).next.2.rest.length + (k + 1) ≤ cs.length
    omega

/-- Once the end is read, the cursor stands there for good. -/
theorem after_of_isEof {n : Nat} (h : IsEof (item next (.ofChars cs) n)) :
    item next (.ofChars cs) n = .ok ⟨.eof, .point (.ofNat (byteLength cs))⟩ ∧
      ∀ k, n < k → after next (.ofChars cs) k = ⟨byteLength cs, []⟩ := by
  obtain ⟨span, hspan⟩ := h
  obtain ⟨hrest, hpoint⟩ := eq_of_next_eof (Prod.ext hspan (Eq.refl _))
  obtain ⟨before, hcs, hoffset⟩ := exists_before cs (n + 1)
  obtain rfl : cs = before := by
    rw [hcs]
    simp [after, hrest]
  have hstop : .ofNat (byteLength cs) = span.stop := by
    rw [← hoffset, offset_after_succ, hspan]
    rfl
  have hstart : span.start = .ofNat (byteLength cs) := by
    rw [hstop, hpoint]
    rfl
  refine ⟨by rw [hspan, hpoint, hstart], fun k hk => ?_⟩
  induction hk with
  | refl => exact congrArg₂ Cursor.mk hoffset hrest
  | step _ ih =>
    rw [after, ih]
    rfl

theorem exists_isEof : ∃ n ≤ cs.length, (∀ k < n, ¬ IsEof (item next (.ofChars cs) k)) ∧
    IsEof (item next (.ofChars cs) n) := by
  have hsome : ∃ n ≤ cs.length, IsEof (item next (.ofChars cs) n) := by
    by_contra hnone
    push Not at hnone
    have hlength := length_rest_after cs (k := cs.length + 1)
      fun j hj => hnone j (Nat.le_of_lt_succ hj)
    omega
  -- the first of them
  classical
  have hex : ∃ n, IsEof (item next (.ofChars cs) n) := by
    obtain ⟨n, -, hn⟩ := hsome
    exact ⟨n, hn⟩
  obtain ⟨m, hm, hend⟩ := hsome
  exact ⟨Nat.find hex, Nat.le_trans (Nat.find_min' hex hend) hm, fun k hk => Nat.find_min hex hk,
    Nat.find_spec hex⟩

/-- Where a reading stands in a text shorter than 4 GiB: its span is the range of its slice. -/
theorem exists_ranges_item (hlt : byteLength cs < 2 ^ 32) (k : Nat) :
    ∃ before gap slice rest what, cs = before ++ gap ++ slice ++ rest ∧
      (after next (.ofChars cs) k).rest = gap ++ slice ++ rest ∧
      (after next (.ofChars cs) (k + 1)).rest = rest ∧
      (after next (.ofChars cs) k).offset = byteLength before ∧
      (after next (.ofChars cs) (k + 1)).offset = byteLength (before ++ gap ++ slice) ∧
      item next (.ofChars cs) k = .ofSlice (item next (.ofChars cs) k).span what ∧
      (item next (.ofChars cs) k).span.Ranges (byteLength (before ++ gap))
        (byteLength (before ++ gap ++ slice)) ∧
      Reads gap slice rest what := by
  obtain ⟨before, gap, slice, rest, what, hcs, hrest, hrest', hoffset, hoffset', hitem, hreads⟩ :=
    exists_reads_item cs k
  refine ⟨before, gap, slice, rest, what, hcs, hrest, hrest', hoffset, hoffset', ?_, ?_, hreads⟩
  · rw [hitem, Reading.span_ofSlice]
  · rw [hitem, Reading.span_ofSlice]
    rw [hcs, Text.byteLength_append _ rest] at hlt
    refine Span.ranges_between ?_ (Nat.lt_of_le_of_lt (Nat.le_add_right _ _) hlt)
    rw [Text.byteLength_append (before ++ gap)]
    exact Nat.le_add_right _ _

/-- The readings of a cursor tile the text. -/
theorem tiles_ofChars (hlt : byteLength cs < 2 ^ 32) : Tiles cs next (.ofChars cs) offset where
  offset_start := rfl
  offset_after k := by
    obtain ⟨before, gap, slice, rest, what, -, -, -, -, hoffset, -, hranges, -⟩ :=
      exists_ranges_item cs hlt k
    rw [hoffset, hranges.stop_eq]
  reads k := by
    obtain ⟨before, gap, slice, rest, what, hcs, -, -, hoffset, -, hitem, hranges, hreads⟩ :=
      exists_ranges_item cs hlt k
    exact ⟨before, gap, slice, rest, _, what, hcs, hoffset, hitem, hranges, hreads⟩
  boundary k := by
    obtain ⟨before, gap, slice, rest, what, hcs, -, -, -, -, -, hranges, -⟩ :=
      exists_ranges_item cs hlt k
    rw [hranges.start_eq, hranges.stop_eq]
    exact ⟨⟨before ++ gap, slice ++ rest, by rw [hcs, List.append_assoc (before ++ gap)], rfl⟩,
      ⟨before ++ gap ++ slice, rest, hcs, rfl⟩⟩
  start_le_stop k := by
    obtain ⟨before, gap, slice, rest, what, -, -, -, -, -, -, hranges, -⟩ :=
      exists_ranges_item cs hlt k
    rw [UInt32.le_iff_toNat_le, hranges.start_eq, hranges.stop_eq,
      Text.byteLength_append (before ++ gap)]
    exact Nat.le_add_right _ _
  offset_le_start k := by
    obtain ⟨before, gap, slice, rest, what, -, -, -, hoffset, -, -, hranges, -⟩ :=
      exists_ranges_item cs hlt k
    rw [hranges.start_eq, hoffset, Text.byteLength_append]
    exact Nat.le_add_right _ _
  offset_lt_stop k hk := by
    obtain ⟨before, gap, slice, rest, what, -, hrest, hrest', hoffset, -, -, hranges, -⟩ :=
      exists_ranges_item cs hlt k
    -- the reading takes a character, so the gap and the slice are not both empty
    have htakes := (after next (.ofChars cs) k).length_next_lt.resolve_left hk
    have hne : gap ++ slice ≠ [] := by
      intro hnil
      rw [hnil, List.nil_append, ← hrest'] at hrest
      rw [hrest] at htakes
      exact Nat.lt_irrefl _ htakes
    have hpos := byteLength_pos hne
    rw [hranges.stop_eq, hoffset, List.append_assoc, Text.byteLength_append before]
    exact Nat.lt_add_of_pos_right hpos
  eof := by
    obtain ⟨n, hn, hbefore, hend⟩ := exists_isEof cs
    obtain ⟨hitem, hafter⟩ := after_of_isEof cs hend
    refine ⟨n, hn, hbefore, _, Span.ranges_between (Nat.le_refl _) hlt, fun k hk => ?_⟩
    rcases Nat.eq_or_lt_of_le hk with rfl | hlt
    · exact hitem
    · rw [item, hafter k hlt]
      rfl

end Cursor

/-! ### The readings from a window -/

section Windows

open Lexer (after item)

variable (cs : List Char)

/-- A window on the characters of a text stays where a cursor in the text is. -/
theorem Window.at_after (k : Nat) : At (cs.map .ok) (after Cursor.next (.ofChars cs) k)
    (after next (.ofPulls (cs.map .ok)) k) := by
  induction k with
  | zero =>
    have hat := at_ofPulls (cs.map .ok)
    rw [Utf8.characters_map_ok] at hat
    exact hat
  | succ k ih => exact (agrees_next ih).at_after

/-- **A text is tiled by its readings**, be it read in memory or while it is pulled character by
character. -/
theorem Cursor.tiles (hlt : byteLength cs < 2 ^ 32) : Tiles cs next (.ofChars cs) offset ∧
    Tiles cs Window.next (.ofPulls (cs.map .ok)) (·.position.toNat) := by
  have htiles := tiles_ofChars cs hlt
  have hitem : item Window.next (.ofPulls (cs.map .ok)) = item next (.ofChars cs) :=
    funext fun k => (Window.agrees_next (Window.at_after cs k)).reading_eq
  refine ⟨htiles, htiles.congr hitem fun k => ?_⟩
  obtain ⟨before, hcs, hoffset⟩ := exists_before cs k
  rw [hcs, Text.byteLength_append] at hlt
  rw [(Window.at_after cs k).position_eq, hoffset,
    UInt32.toNat_ofNat_of_lt' (Nat.lt_of_le_of_lt (Nat.le_add_right _ _) hlt)]

/-- The beginning of a string that fails is in no span: only the escape is. -/
theorem Cursor.tiles_escape :
    let cs := ['a', ' ', '"', 'x', '\\', 'q']
    byteLength cs < 2 ^ 32 ∧
      (List.range 3).map (item next (.ofChars cs)) = [.ok ⟨.name "a", ⟨0, 1⟩⟩,
        .error ⟨.unknownEscape 'q', ⟨4, 6⟩⟩, .ok ⟨.eof, ⟨6, 6⟩⟩] ∧
      Tiles cs next (.ofChars cs) offset ∧
      Tiles cs Window.next (.ofPulls (cs.map .ok)) (·.position.toNat) :=
  ⟨by decide, by decide, tiles _ (by decide)⟩

end Windows

end Script

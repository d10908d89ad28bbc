/-!
# Spans

A span is a stretch of a source text, given by the byte offsets (in UTF-8) of its two ends. An
offset has 32 bits. Of a number of bytes that needs more only the last 32 bits are kept, so in a
text of 4 GiB or more different places have the same offset.

* `Span.between`: the span between two places of a text.
* `Span.hull`: the least span that covers two others.
* `Text.byteLength`: the unit in which offsets count.
-/

namespace Script

/-- The offset of a place with a number of bytes before it. -/
instance coeOffset : Coe Nat UInt32 :=
  ⟨UInt32.ofNat⟩

/-- A stretch of source text, from the byte offset `start` up to the byte offset `stop`. -/
structure Span where
  start : UInt32
  stop : UInt32
deriving DecidableEq, Repr, Inhabited

namespace Span

/-- The empty span at an offset. -/
def point (offset : UInt32) : Span :=
  ⟨offset, offset⟩

/-- The span between two places of a text, with so many bytes before them. -/
def between (start stop : Nat) : Span :=
  ⟨start, stop⟩

/-- The span that covers two others. -/
def hull (a b : Span) : Span :=
  ⟨min a.start b.start, max a.stop b.stop⟩

/-- A span as text: its two offsets with two dots between them. -/
def text (s : Span) : String :=
  s!"{s.start}..{s.stop}"

end Span

namespace Text

/-- The number of bytes of a text in UTF-8. -/
def byteLength : List Char → Nat
  | [] => 0
  | c :: cs => c.utf8Size + byteLength cs

@[simp] theorem byteLength_nil : byteLength [] = 0 := rfl

@[simp] theorem byteLength_cons (c : Char) (cs : List Char) :
    byteLength (c :: cs) = c.utf8Size + byteLength cs := rfl

@[simp] theorem byteLength_append (a b : List Char) :
    byteLength (a ++ b) = byteLength a + byteLength b := by
  induction a with
  | nil => simp
  | cons c a ih => simp [ih, Nat.add_assoc]

end Text

end Script

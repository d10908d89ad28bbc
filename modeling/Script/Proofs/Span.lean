import Mathlib.Algebra.Group.Nat.Defs
import Script.Span

/-!
# Offsets and numbers of bytes

An offset of 32 bits tells a number of bytes as long as there are fewer than 2 ^ 32 of them. What is
proved about the places of a text counts in bytes, and comes back to offsets by `Span.Ranges`.

* `Span.Ranges`: a span that tells two places of a text;
* `Text.byteLength_replicate`: long texts of a single letter, for the places beyond.
-/

namespace Script

open Text (byteLength)

namespace Offset

@[simp] theorem toNat_min (a b : UInt32) : (min a b).toNat = min a.toNat b.toNat := by
  rw [Nat.min_def]
  exact apply_ite UInt32.toNat _ _ _

@[simp] theorem toNat_max (a b : UInt32) : (max a b).toNat = max a.toNat b.toNat := by
  rw [Nat.max_def]
  exact apply_ite UInt32.toNat _ _ _

variable {a b : UInt32}

theorem min_eq_left (h : a ≤ b) : min a b = a :=
  if_pos h

theorem min_eq_right (h : b ≤ a) : min a b = b := by
  rw [← UInt32.toNat_inj, toNat_min, Nat.min_eq_right (UInt32.le_iff_toNat_le.1 h)]

theorem max_eq_right (h : a ≤ b) : max a b = b :=
  if_pos h

theorem max_eq_left (h : b ≤ a) : max a b = a := by
  rw [← UInt32.toNat_inj, toNat_max, Nat.max_eq_left (UInt32.le_iff_toNat_le.1 h)]

end Offset

/-- A span starts and ends after so many bytes of a text. -/
structure Span.Ranges (span : Span) (start stop : Nat) : Prop where
  start_eq : span.start.toNat = start
  stop_eq : span.stop.toNat = stop

theorem Span.ranges_between {start stop : Nat} (hle : start ≤ stop) (hlt : stop < 2 ^ 32) :
    (Span.between start stop).Ranges start stop :=
  ⟨UInt32.toNat_ofNat_of_lt' (Nat.lt_of_le_of_lt hle hlt), UInt32.toNat_ofNat_of_lt' hlt⟩

theorem Text.byteLength_replicate (n : Nat) {c : Char} (hc : c.utf8Size = 1) :
    byteLength (List.replicate n c) = n := by
  induction n with
  | zero => rfl
  | succ n ih => rw [List.replicate_succ, byteLength_cons, hc, ih, Nat.add_comm]

end Script

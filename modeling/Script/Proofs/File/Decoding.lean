import Script.File
import Script.Proofs.Text.Utf8

/-!
# What a decoder is relied on for

How a file is run is proved for every decoder of UTF-8 (`Decoder.DecodesUtf8`): it gives the
characters of an encoded text in their order, and where the bytes stop being those of a text, a
fault. Of what fault this is nothing is said, and nothing of what the decoder goes on with, though a
reader that looks ahead may see that too.

* `Decoder.DecodesUtf8.exists_append`, `Decoder.DecodesUtf8.exists_of_eq`: the characters that come
  first are those of the encoded text that the bytes begin with;
* `Utf8.decodesUtf8_decoder`: the decoder of the program is one of UTF-8.
-/

namespace Script

namespace Utf8

/-- No character begins some bytes: they are none, or those of a character are broken off or
wrong. -/
def NoCharacter (bytes : List UInt8) : Prop :=
  ∀ c, ¬ String.utf8EncodeChar c <+: bytes

/-- All bytes are an encoded text as far as they go, up to where no character begins. -/
theorem exists_eq_encode_append (bytes : List UInt8) :
    ∃ cs rest, bytes = encode cs ++ rest ∧ NoCharacter rest := by
  by_cases h : NoCharacter bytes
  · exact ⟨[], bytes, rfl, h⟩
  obtain ⟨c, more, hbytes⟩ : ∃ c, String.utf8EncodeChar c <+: bytes := by
    simpa only [NoCharacter, not_forall, not_not] using h
  have hlt : more.length < bytes.length := by
    have hpos := List.length_pos_iff.2 (utf8EncodeChar_ne_nil c)
    rw [← hbytes, List.length_append]
    omega
  obtain ⟨cs, rest, hmore, hrest⟩ := exists_eq_encode_append more
  exact ⟨c :: cs, rest, by rw [← hbytes, hmore, encode_cons, List.append_assoc], hrest⟩
termination_by bytes.length

end Utf8

open Utf8 (encode characters)

/-- **A decoder of UTF-8** gives the characters of an encoded text one after another. If other bytes
come after them, of which no character can be made, then a fault comes next. -/
structure Decoder.DecodesUtf8 (decode : Decoder) : Prop where
  valid : ∀ cs, decode (encode cs) = cs.map .ok
  invalid : ∀ cs rest, rest ≠ [] → Utf8.NoCharacter rest →
    ∃ fault more, decode (encode cs ++ rest) = cs.map .ok ++ .error fault :: more

namespace Decoder.DecodesUtf8

variable {decode : Decoder} (h : decode.DecodesUtf8)
include h

/-- All bytes are decoded to the characters of the text that they begin with, and then to a
fault unless there are no more. -/
theorem exists_eq (bytes : List UInt8) : ∃ cs rest, bytes = encode cs ++ rest ∧
    characters (decode bytes) = cs ∧ (decode bytes = cs.map .ok → rest = []) := by
  obtain ⟨cs, rest, rfl, hrest⟩ := Utf8.exists_eq_encode_append bytes
  refine ⟨cs, rest, rfl, ?_⟩
  by_cases hnil : rest = []
  · subst hnil
    rw [List.append_nil, h.valid]
    exact ⟨Utf8.characters_map_ok cs, fun _ => rfl⟩
  · obtain ⟨fault, more, hdecode⟩ := h.invalid cs rest hnil hrest
    rw [hdecode]
    refine ⟨?_, fun heq => ?_⟩
    · rw [Utf8.characters_map_ok_append]
      exact List.append_nil cs
    · exact absurd (congrArg List.length heq) (by simp)

/-- **An encoded text is decoded to its characters**, whatever comes after it. -/
theorem exists_append (cs : List Char) (later : List UInt8) :
    ∃ more, decode (encode cs ++ later) = cs.map .ok ++ more := by
  obtain ⟨cs', rest, rfl, hrest⟩ := Utf8.exists_eq_encode_append later
  rw [← List.append_assoc, ← Utf8.encode_append]
  by_cases hnil : rest = []
  · refine ⟨cs'.map .ok, ?_⟩
    rw [hnil, List.append_nil, h.valid, List.map_append]
  · obtain ⟨fault, more, hdecode⟩ := h.invalid (cs ++ cs') rest hnil hrest
    refine ⟨cs'.map .ok ++ .error fault :: more, ?_⟩
    rw [hdecode, List.map_append, List.append_assoc]

/-- **Characters that come first** are those of a text that the bytes begin with, and they are all
only if the bytes are just this text. -/
theorem exists_of_eq {bytes : List UInt8} {cs : List Char} {more : List (Except ReadFault Char)}
    (hdecode : decode bytes = cs.map .ok ++ more) :
    ∃ rest, bytes = encode cs ++ rest ∧ (more = [] → rest = []) := by
  obtain ⟨all, rest, rfl, hall, hend⟩ := h.exists_eq bytes
  have hcharacters : cs ++ characters more = all := by
    rw [← hall, hdecode, Utf8.characters_map_ok_append]
  refine ⟨encode (characters more) ++ rest, ?_, ?_⟩
  · rw [← List.append_assoc, ← Utf8.encode_append, hcharacters]
  · rintro rfl
    obtain rfl : cs = all := by simpa [characters] using hcharacters
    exact hend (by simpa using hdecode)

end Decoder.DecodesUtf8

/-! ### The decoder of the program -/

theorem Utf8.decodesUtf8_decoder : decoder.DecodesUtf8 where
  valid cs := by
    rw [decoder, pulls_encode, List.map_map]
    rfl
  invalid cs rest hrest hnone := by
    obtain ⟨byte, bytes, rfl⟩ := List.exists_cons_of_ne_nil hrest
    rw [decoder, pulls_encode_append, pulls_cons, List.map_append, List.map_map]
    rcases hpull : pull byte bytes with ⟨c | c, after⟩
    · exact ⟨_, _, rfl⟩
    · exact absurd ⟨after, (pull_eq_ok_iff.1 hpull).symm⟩ (hnone c)

end Script

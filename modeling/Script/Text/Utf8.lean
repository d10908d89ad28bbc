/-!
# Decoding UTF-8

Bytes are decoded into a list of *pulls*, each a character or a fault. A fault does not end the
list: decoding goes on with the bytes after those that the fault used up. The first byte of a
character tells how many follow it. A byte that does not continue the character that it stands in is
left for the next pull; a complete character that is written too long, or that is a surrogate or out
of range, is used up as a whole.

* `Utf8.pulls`: all pulls of a list of bytes.
* `Utf8.decode?`: the characters, if there is no fault.
-/

namespace Script.Utf8

/-- Why bytes are no character. -/
inductive Fault where
  /-- The bytes are not those of a character. -/
  | invalidData
  /-- The bytes end inside a character. -/
  | unexpectedEnd
deriving DecidableEq, Repr

/-- A character, or why there is none. -/
abbrev Pull := Except Fault Char

/-- The number of bytes that follow the first byte of a character, and the bits that the first
byte holds. -/
def lead? (byte : Nat) : Option (Nat × Nat) :=
  if byte < 0x80 then some (0, byte)
  else if byte < 0xc0 then none
  else if byte < 0xe0 then some (1, byte - 0xc0)
  else if byte < 0xf0 then some (2, byte - 0xe0)
  else if byte < 0xf8 then some (3, byte - 0xf0)
  else none

/-- Adds the bits of the bytes that follow, six from each. -/
def follow : Nat → Nat → List UInt8 → Except Fault Nat × List UInt8
  | 0, bits, rest => (.ok bits, rest)
  | _ + 1, _, [] => (.error .unexpectedEnd, [])
  | n + 1, bits, byte :: rest =>
    if byte.toNat / 64 = 2 then follow n (64 * bits + byte.toNat % 64) rest
    else (.error .invalidData, byte :: rest)

/-- The least number that needs as many following bytes. -/
def least : Nat → Nat
  | 0 => 0
  | 1 => 0x80
  | 2 => 0x800
  | _ => 0x10000

/-- The character of a number, if it is a code point, no surrogate, and not written too long. -/
def character (following bits : Nat) : Pull :=
  if least following ≤ bits ∧ bits.isValidChar then .ok (Char.ofNat bits) else .error .invalidData

/-- One pull, and the bytes after it. -/
def pull (byte : UInt8) (rest : List UInt8) : Pull × List UInt8 :=
  match lead? byte.toNat with
  | none => (.error .invalidData, rest)
  | some (following, bits) =>
    match follow following bits rest with
    | (.ok bits, rest) => (character following bits, rest)
    | (.error fault, rest) => (.error fault, rest)

/-- At most `n` pulls. -/
def pullsWithin : Nat → List UInt8 → List Pull
  | 0, _ => []
  | _ + 1, [] => []
  | n + 1, byte :: rest =>
    let (first, after) := pull byte rest
    first :: pullsWithin n after

/-- All pulls. Each uses up a byte, which bounds their number. -/
def pulls (bytes : List UInt8) : List Pull :=
  pullsWithin bytes.length bytes

/-- The characters before the first fault, of whatever kind faults are. -/
def characters {ε : Type} : List (Except ε Char) → List Char
  | .ok c :: rest => c :: characters rest
  | _ => []

/-- The last fault, if there is any. -/
def lastFault? {ε : Type} : List (Except ε Char) → Option ε
  | [] => none
  | .ok _ :: rest => lastFault? rest
  | .error fault :: rest => some ((lastFault? rest).getD fault)

/-- The characters of bytes without fault. -/
def decode? (bytes : List UInt8) : Option (List Char) :=
  let all := pulls bytes
  match lastFault? all with
  | none => some (characters all)
  | some _ => none

end Script.Utf8

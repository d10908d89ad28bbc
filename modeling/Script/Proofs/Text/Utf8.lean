import Script.Span
import Script.Text.Utf8
import Mathlib.Data.List.Basic

/-!
# Decoding what was encoded

A pull gives a character exactly where the bytes begin with those that encode it, and takes just
these (`pull_eq_ok_iff`). So the pulls of an encoded text are its characters, whatever comes after
it (`pulls_encode_append`).
-/

namespace Script.Utf8

/-- A text in UTF-8. -/
def encode (cs : List Char) : List UInt8 :=
  cs.flatMap String.utf8EncodeChar

@[simp] theorem encode_nil : encode [] = [] := rfl

@[simp] theorem encode_cons (c : Char) (cs : List Char) :
    encode (c :: cs) = String.utf8EncodeChar c ++ encode cs := rfl

@[simp] theorem encode_append (a b : List Char) : encode (a ++ b) = encode a ++ encode b :=
  List.flatMap_append ..

theorem length_encode (cs : List Char) : (encode cs).length = Text.byteLength cs := by
  induction cs with
  | nil => rfl
  | cons c cs ih =>
    rw [encode_cons, List.length_append, String.length_utf8EncodeChar, ih, Text.byteLength_cons]

theorem utf8EncodeChar_ne_nil (c : Char) : String.utf8EncodeChar c ≠ [] := by
  intro h
  have hlength := congrArg List.length h
  simp [Nat.pos_iff_ne_zero.1 c.utf8Size_pos] at hlength

/-! ### Following bytes -/

/-- A byte that continues a character. -/
def Continues (byte : UInt8) : Prop :=
  byte.toNat / 64 = 2

/-- The number that following bytes say, after the bits before them. -/
def bitsOf (bits : Nat) (bytes : List UInt8) : Nat :=
  bytes.foldl (fun bits byte => 64 * bits + byte.toNat % 64) bits

theorem follow_eq_ok_iff : ∀ {n bits : Nat} {bytes rest : List UInt8} {result : Nat},
    follow n bits bytes = (.ok result, rest) ↔
      ∃ taken : List UInt8, taken.length = n ∧ (∀ byte ∈ taken, Continues byte) ∧
        bytes = taken ++ rest ∧ result = bitsOf bits taken
  | 0, bits, bytes, rest, result => by
    constructor
    · intro h
      cases h
      exact ⟨[], rfl, by simp, rfl, rfl⟩
    · rintro ⟨taken, hlength, -, rfl, rfl⟩
      obtain rfl := List.length_eq_zero_iff.1 hlength
      rfl
  -- The bytes end before the character does.
  | n + 1, bits, [], rest, result => by
    constructor
    · intro h
      cases h
    · rintro ⟨taken, hlength, -, hbytes, -⟩
      obtain ⟨rfl, -⟩ := List.append_eq_nil_iff.1 hbytes.symm
      cases hlength
  | n + 1, bits, byte :: bytes, rest, result => by
    rw [follow]
    split
    · next hbyte =>
      rw [follow_eq_ok_iff]
      constructor
      · rintro ⟨taken, hlength, hall, rfl, rfl⟩
        exact ⟨byte :: taken, congrArg (· + 1) hlength, List.forall_mem_cons.2 ⟨hbyte, hall⟩, rfl,
          rfl⟩
      · rintro ⟨_ | ⟨byte', taken⟩, hlength, hall, hbytes, rfl⟩
        · cases hlength
        · obtain ⟨rfl, rfl⟩ := List.cons.inj hbytes
          exact ⟨taken, Nat.succ.inj hlength, (List.forall_mem_cons.1 hall).2, rfl, rfl⟩
    · -- a byte that does not continue the character is a fault
      next hbyte =>
      constructor
      · intro h
        cases h
      · rintro ⟨_ | ⟨byte', taken⟩, hlength, hall, hbytes, -⟩
        · cases hlength
        · obtain ⟨rfl, -⟩ := List.cons.inj hbytes
          exact absurd (List.forall_mem_cons.1 hall).1 hbyte

/-! ### Characters -/

theorem lead?_eq_some_iff {byte following bits : Nat} :
    lead? byte = some (following, bits) ↔
      (following = 0 ∧ byte < 0x80 ∧ bits = byte) ∨
      (following = 1 ∧ 0xc0 ≤ byte ∧ byte < 0xe0 ∧ bits = byte - 0xc0) ∨
      (following = 2 ∧ 0xe0 ≤ byte ∧ byte < 0xf0 ∧ bits = byte - 0xe0) ∨
      (following = 3 ∧ 0xf0 ≤ byte ∧ byte < 0xf8 ∧ bits = byte - 0xf0) := by
  unfold lead?
  grind

theorem character_eq_ok_iff {following bits : Nat} {c : Char} :
    character following bits = .ok c ↔ least following ≤ bits ∧ bits = c.toNat := by
  unfold character
  constructor
  · intro h
    split at h
    · next hvalid =>
      obtain rfl := Except.ok.inj h
      refine ⟨hvalid.1, ?_⟩
      rw [Char.ofNat, dif_pos hvalid.2]
      rfl
    · cases h
  · rintro ⟨hleast, rfl⟩
    rw [if_pos ⟨hleast, c.valid⟩, Char.ofNat_toNat]

theorem toNat_ofNat {n : Nat} (h : n < 256) : (UInt8.ofNat n).toNat = n :=
  UInt8.toNat_ofNat_of_lt' h

theorem eq_ofNat (byte : UInt8) {n : Nat} (h : byte.toNat = n) : byte = UInt8.ofNat n := by
  rw [← h, UInt8.ofNat_toNat]

/-- A first byte and others say a number: the first one tells how many follow, the others
continue it, and the number needs so many. -/
def Says (byte : UInt8) (taken : List UInt8) (number : Nat) : Prop :=
  ∃ bits, lead? byte.toNat = some (taken.length, bits) ∧ (∀ b ∈ taken, Continues b) ∧
    least taken.length ≤ bitsOf bits taken ∧ bitsOf bits taken = number

theorem says_of_utf8EncodeChar {c : Char} {byte : UInt8} {taken : List UInt8}
    (h : String.utf8EncodeChar c = byte :: taken) : Says byte taken c.toNat := by
  have hc : c.toNat < 0x110000 := by
    rcases c.valid with h | h
    · exact Nat.lt_trans h (by decide)
    · exact h.2
  have hval : c.val.toNat = c.toNat := rfl
  simp only [String.utf8EncodeChar, hval] at h
  simp only [Says, lead?_eq_some_iff]
  generalize c.toNat = v at h hc
  -- the bits of the number are spread over one to four bytes
  split at h
  · next h₁ =>
    cases h
    have hbyte := toNat_ofNat (n := v) (by omega)
    exact ⟨v, .inl ⟨rfl, by omega, by omega⟩, by simp, Nat.zero_le _, rfl⟩
  split at h
  · next h₁ h₂ =>
    cases h
    have hbyte := toNat_ofNat (n := v / 64 % 32 + 192) (by omega)
    have hb := toNat_ofNat (n := v % 64 + 128) (by omega)
    refine ⟨v / 64, .inr (.inl ⟨rfl, by omega, by omega, by omega⟩), ?_, ?_⟩
    · simp only [List.mem_singleton, forall_eq, Continues, hb]
      omega
    · simp only [bitsOf, List.foldl, hb, least, List.length]
      omega
  split at h
  · next h₁ h₂ h₃ =>
    cases h
    have hbyte := toNat_ofNat (n := v / 4096 % 16 + 224) (by omega)
    have ha := toNat_ofNat (n := v / 64 % 64 + 128) (by omega)
    have hb := toNat_ofNat (n := v % 64 + 128) (by omega)
    refine ⟨v / 4096, .inr (.inr (.inl ⟨rfl, by omega, by omega, by omega⟩)), ?_, ?_⟩
    · simp only [List.forall_mem_cons, Continues, ha, hb]
      exact ⟨by omega, by omega, by simp⟩
    · simp only [bitsOf, List.foldl, ha, hb, least, List.length]
      omega
  · next h₁ h₂ h₃ =>
    cases h
    have hbyte := toNat_ofNat (n := v / 262144 % 8 + 240) (by omega)
    have ha := toNat_ofNat (n := v / 4096 % 64 + 128) (by omega)
    have hb := toNat_ofNat (n := v / 64 % 64 + 128) (by omega)
    have hd := toNat_ofNat (n := v % 64 + 128) (by omega)
    refine ⟨v / 262144, .inr (.inr (.inr ⟨rfl, by omega, by omega, by omega⟩)), ?_, ?_⟩
    · simp only [List.forall_mem_cons, Continues, ha, hb, hd]
      exact ⟨by omega, by omega, by omega, by simp⟩
    · simp only [bitsOf, List.foldl, ha, hb, hd, least, List.length]
      omega

theorem utf8EncodeChar_of_says {c : Char} {byte : UInt8} {taken : List UInt8}
    (h : Says byte taken c.toNat) : String.utf8EncodeChar c = byte :: taken := by
  have hval : c.val.toNat = c.toNat := rfl
  simp only [Says, lead?_eq_some_iff] at h
  simp only [String.utf8EncodeChar, hval]
  generalize c.toNat = v at h
  obtain ⟨bits, hlead, hall, hleast, hbits⟩ := h
  -- One case for each length: the bits of the bytes are those that the encoding of the number has.
  rcases hlead with ⟨hlength, h₁, hb₀⟩ | ⟨hlength, h₁, h₂, hb₀⟩ | ⟨hlength, h₁, h₂, hb₀⟩ |
    ⟨hlength, h₁, h₂, hb₀⟩
  · obtain rfl := List.length_eq_zero_iff.1 hlength
    have hv : byte.toNat = v := hb₀.symm.trans hbits
    rw [if_pos (by omega), ← eq_ofNat byte hv]
  · obtain ⟨a, rfl⟩ := List.length_eq_one_iff.1 hlength
    simp only [List.forall_mem_cons, Continues, bitsOf, List.foldl, least, List.length]
      at hall hleast hbits
    have ha := hall.1
    rw [if_neg (by omega), if_pos (by omega), ← eq_ofNat byte (by omega),
      ← eq_ofNat a (by omega)]
  · obtain ⟨a, b, rfl⟩ := List.length_eq_two.1 hlength
    simp only [List.forall_mem_cons, Continues, bitsOf, List.foldl, least, List.length]
      at hall hleast hbits
    obtain ⟨ha, hb, -⟩ := hall
    rw [if_neg (by omega), if_neg (by omega), if_pos (by omega),
      ← eq_ofNat byte (by omega), ← eq_ofNat a (by omega),
      ← eq_ofNat b (by omega)]
  · obtain ⟨a, b, d, rfl⟩ := List.length_eq_three.1 hlength
    simp only [List.forall_mem_cons, Continues, bitsOf, List.foldl, least, List.length]
      at hall hleast hbits
    obtain ⟨ha, hb, hd, -⟩ := hall
    rw [if_neg (by omega), if_neg (by omega), if_neg (by omega),
      ← eq_ofNat byte (by omega), ← eq_ofNat a (by omega),
      ← eq_ofNat b (by omega), ← eq_ofNat d (by omega)]

/-- The bytes that encode a character are those that say its number. -/
theorem utf8EncodeChar_eq_iff {c : Char} {byte : UInt8} {taken : List UInt8} :
    String.utf8EncodeChar c = byte :: taken ↔ Says byte taken c.toNat :=
  ⟨says_of_utf8EncodeChar, utf8EncodeChar_of_says⟩

/-! ### Pulls -/

/-- **A pull gives a character exactly where its bytes stand**, and takes just these. -/
theorem pull_eq_ok_iff {byte : UInt8} {bytes rest : List UInt8} {c : Char} :
    pull byte bytes = (.ok c, rest) ↔ byte :: bytes = String.utf8EncodeChar c ++ rest := by
  constructor
  · intro h
    unfold pull at h
    split at h
    · cases h
    next following bits hlead =>
    split at h
    · next result after hfollow =>
      obtain ⟨hcharacter, rfl⟩ := Prod.mk.inj h
      obtain ⟨taken, rfl, hall, rfl, rfl⟩ := follow_eq_ok_iff.1 hfollow
      obtain ⟨hleast, hnumber⟩ := character_eq_ok_iff.1 hcharacter
      rw [utf8EncodeChar_eq_iff.2 ⟨bits, hlead, hall, hleast, hnumber⟩, List.cons_append]
    · cases h
  · intro h
    -- The first byte says how many follow, so the pull takes just the bytes of the character.
    cases hbytes : String.utf8EncodeChar c with
    | nil => exact absurd hbytes (utf8EncodeChar_ne_nil c)
    | cons first taken =>
      rw [hbytes, List.cons_append] at h
      obtain ⟨rfl, rfl⟩ := List.cons.inj h
      obtain ⟨bits, hlead, hall, hsays⟩ := utf8EncodeChar_eq_iff.1 hbytes
      have hfollow : follow taken.length bits (taken ++ rest) = (.ok (bitsOf bits taken), rest) :=
        follow_eq_ok_iff.2 ⟨taken, rfl, hall, rfl, rfl⟩
      unfold pull
      rw [hlead]
      dsimp only
      rw [hfollow]
      dsimp only
      rw [character_eq_ok_iff.2 hsays]

theorem length_follow_le : ∀ (n bits : Nat) (bytes : List UInt8),
    (follow n bits bytes).2.length ≤ bytes.length
  | 0, _, _ => Nat.le_refl _
  | _ + 1, _, [] => Nat.le_refl _
  | n + 1, bits, byte :: bytes => by
    rw [follow]
    split
    · exact Nat.le_succ_of_le (length_follow_le n _ bytes)
    · exact Nat.le_refl _

theorem length_pull_le (byte : UInt8) (bytes : List UInt8) :
    (pull byte bytes).2.length ≤ bytes.length := by
  unfold pull
  split
  · exact Nat.le_refl _
  next following bits hlead =>
  have hle := length_follow_le following bits bytes
  split
  · next h => rw [h] at hle; exact hle
  · next h => rw [h] at hle; exact hle

theorem pullsWithin_cons (n : Nat) (byte : UInt8) (bytes : List UInt8) :
    pullsWithin (n + 1) (byte :: bytes) =
      (pull byte bytes).1 :: pullsWithin n (pull byte bytes).2 :=
  rfl

/-- Any number that is at least that of the bytes is enough. -/
theorem pullsWithin_eq : ∀ {n m : Nat} {bytes : List UInt8}, bytes.length ≤ n → bytes.length ≤ m →
    pullsWithin n bytes = pullsWithin m bytes
  | 0, 0, _, _, _ => rfl
  | 0, m + 1, bytes, hn, _ => by
    obtain rfl := List.length_eq_zero_iff.1 (Nat.le_zero.1 hn)
    rfl
  | n + 1, 0, bytes, _, hm => by
    obtain rfl := List.length_eq_zero_iff.1 (Nat.le_zero.1 hm)
    rfl
  | n + 1, m + 1, [], _, _ => rfl
  | n + 1, m + 1, byte :: bytes, hn, hm => by
    have hle := length_pull_le byte bytes
    rw [List.length_cons] at hn hm
    rw [pullsWithin_cons, pullsWithin_cons, pullsWithin_eq (n := n) (m := m)] <;> omega

@[simp] theorem pulls_nil : pulls [] = [] := rfl

theorem pulls_cons (byte : UInt8) (bytes : List UInt8) :
    pulls (byte :: bytes) = (pull byte bytes).1 :: pulls (pull byte bytes).2 := by
  rw [pulls, List.length_cons, pullsWithin_cons, pulls,
    pullsWithin_eq (length_pull_le byte bytes) (Nat.le_refl _)]

/-- **An encoded text is decoded to its characters**, whatever comes after it. -/
theorem pulls_encode_append (cs : List Char) (rest : List UInt8) :
    pulls (encode cs ++ rest) = cs.map .ok ++ pulls rest := by
  induction cs with
  | nil => rfl
  | cons c cs ih =>
    rw [encode_cons, List.append_assoc]
    cases hbytes : String.utf8EncodeChar c ++ (encode cs ++ rest) with
    | nil => exact absurd (List.append_eq_nil_iff.1 hbytes).1 (utf8EncodeChar_ne_nil c)
    | cons byte bytes =>
      rw [pulls_cons, pull_eq_ok_iff.2 hbytes.symm, ih]
      rfl

theorem pulls_encode (cs : List Char) : pulls (encode cs) = cs.map .ok := by
  have h := pulls_encode_append cs []
  rwa [List.append_nil, pulls_nil, List.append_nil] at h

/-! ### Characters and faults -/

variable {ε : Type}

theorem characters_map_ok_append (cs : List Char) (more : List (Except ε Char)) :
    characters (cs.map .ok ++ more) = cs ++ characters more := by
  induction cs with
  | nil => rfl
  | cons c cs ih => exact congrArg (c :: ·) ih

theorem characters_map_ok (cs : List Char) :
    characters (cs.map (.ok : Char → Except ε Char)) = cs := by
  simpa [characters] using characters_map_ok_append cs []

theorem characters_take : ∀ (n : Nat) (ps : List (Except ε Char)),
    characters (ps.take n) = (characters ps).take n
  | 0, ps => by simp [characters]
  | n + 1, [] => rfl
  | n + 1, .error fault :: ps => rfl
  | n + 1, .ok c :: ps => congrArg (c :: ·) (characters_take n ps)

/-- After the characters comes a fault, or nothing. -/
theorem exists_eq_characters_append : ∀ ps : List (Except ε Char),
    ∃ more, ps = (characters ps).map .ok ++ more ∧ ∀ c more', more ≠ .ok c :: more'
  | [] => ⟨[], rfl, by rintro _ _ ⟨⟩⟩
  | .error fault :: ps => ⟨.error fault :: ps, rfl, by rintro _ _ ⟨⟩⟩
  | .ok c :: ps => by
    obtain ⟨more, hps, hmore⟩ := exists_eq_characters_append ps
    exact ⟨more, congrArg (.ok c :: ·) hps, hmore⟩

theorem lastFault?_append (ps ps' : List (Except ε Char)) :
    lastFault? (ps ++ ps') = (lastFault? ps').or (lastFault? ps) := by
  induction ps with
  | nil => exact (Option.or_none).symm
  | cons p ps ih =>
    cases p with
    | ok c => exact ih
    | error fault =>
      rw [List.cons_append, lastFault?, ih, lastFault?]
      cases lastFault? ps' <;> rfl

@[simp] theorem lastFault?_map_ok (cs : List Char) :
    lastFault? (cs.map (.ok : Char → Except ε Char)) = none := by
  induction cs with
  | nil => rfl
  | cons c cs ih => exact ih

end Script.Utf8

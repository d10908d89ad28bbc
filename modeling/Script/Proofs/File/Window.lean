import Script.File
import Script.Proofs.Lexeme.Feeding
import Script.Proofs.Text.Utf8

/-!
# Reading while decoding

A file is not decoded first and read then. A lexer holds two characters of it, the next one and the
one after (`Window`). When it passes a character, it pulls another one; on the way the offset is
counted, the characters are recorded, and the last fault is kept (`Recorder`). A fault looks to the
lexer like the end of the text; but a further pull may give a character again.

* `Window.next`: one reading from a window;
* `Window.At`: a window stands at a place of the text before the first fault, `Window.at_ofPulls` at
  the beginning, and `Window.At.advance` with each character one further;
* `Window.At.feeds`: whatever a cursor at this place is asked for, the window gives the same, and
  then stands where the cursor does.
-/

namespace Script

open Text (byteLength isBlank)

/-! ### Recorded pulls -/

/-- **What has been pulled of a file so far**: the pulls that are left, the offset of the next
character, the characters pulled, and the last fault among the pulls. -/
structure Recorder where
  left : List (Except ReadFault Char)
  offset : UInt32
  source : List Char
  fault? : Option ReadFault

namespace Recorder

/-- The state before the first pull. -/
def ofPulls (pulls : List (Except ReadFault Char)) : Recorder :=
  ⟨pulls, 0, [], none⟩

/-- One pull: a character with its offset, or nothing where there is no more pull and at a
fault. -/
def pull (r : Recorder) : Option (UInt32 × Char) × Recorder :=
  match r.left with
  | [] => (none, r)
  | .ok c :: left =>
    (some (r.offset, c),
      { r with left, offset := r.offset + .ofNat c.utf8Size, source := r.source ++ [c] })
  | .error fault :: left => (none, { r with left, fault? := some fault })

theorem length_left_pull_le (r : Recorder) : r.pull.2.left.length ≤ r.left.length := by
  unfold pull
  split
  · exact Nat.le_refl _
  all_goals
    next hleft =>
    rw [hleft]
    exact Nat.le_succ _

/-- A pull that gives a character is one of those that were left. -/
theorem length_left_pull_lt {r : Recorder} {found : UInt32 × Char} (h : r.pull.1 = some found) :
    r.pull.2.left.length < r.left.length := by
  unfold pull at h ⊢
  split at h
  · cases h
  · next hleft =>
    rw [hleft]
    exact Nat.lt_succ_self _
  · cases h

/-- Some pulls have been made of all that there are. As long as there was no fault among them,
each has given a character. -/
structure Pulled (pulls : List (Except ReadFault Char)) (n : Nat) (r : Recorder) : Prop where
  left_eq : r.left = pulls.drop n
  fault?_eq : r.fault? = Utf8.lastFault? (pulls.take n)
  take_eq : r.fault? = none → pulls.take n = r.source.map .ok
  offset_eq : r.fault? = none → r.offset = .ofNat (byteLength r.source)

variable {pulls : List (Except ReadFault Char)} {n : Nat} {r : Recorder}

theorem pulled_ofPulls (pulls : List (Except ReadFault Char)) : (ofPulls pulls).Pulled pulls 0 :=
  ⟨rfl, rfl, fun _ => rfl, fun _ => rfl⟩

theorem Pulled.pull (h : r.Pulled pulls n) : r.pull.2.Pulled pulls (n + 1) := by
  obtain ⟨hleft, hfault, htake, hoffset⟩ := h
  unfold Recorder.pull
  cases hdrop : pulls.drop n with
  | nil =>
    -- all has been pulled already
    have hlength := List.drop_eq_nil_iff.1 hdrop
    rw [hleft, hdrop]
    refine ⟨?_, ?_, fun hnone => ?_, hoffset⟩
    · rw [hleft, hdrop, List.drop_eq_nil_of_le (Nat.le_succ_of_le hlength)]
    · rw [hfault, List.take_of_length_le hlength,
        List.take_of_length_le (Nat.le_succ_of_le hlength)]
    · rw [← htake hnone, List.take_of_length_le hlength,
        List.take_of_length_le (Nat.le_succ_of_le hlength)]
  | cons p more =>
    have hdrop' : pulls.drop (n + 1) = more := by
      rw [← List.tail_drop, hdrop, List.tail_cons]
    have htake' : pulls.take (n + 1) = pulls.take n ++ [p] := by
      rw [List.take_add, hdrop]
      rfl
    rw [hleft, hdrop]
    cases p with
    | ok c =>
      refine ⟨hdrop'.symm, ?_, fun hnone => ?_, fun hnone => ?_⟩
      · rw [htake', Utf8.lastFault?_append]
        exact hfault
      · rw [htake', htake hnone, List.map_append]
        rfl
      · rw [Text.byteLength_append, UInt32.ofNat_add, ← hoffset hnone]
        rfl
    | error fault =>
      refine ⟨hdrop'.symm, ?_, by rintro ⟨⟩, by rintro ⟨⟩⟩
      rw [htake', Utf8.lastFault?_append]
      rfl

theorem Pulled.eq_append (h : r.Pulled pulls n) (hnone : r.fault? = none) :
    pulls = r.source.map .ok ++ r.left := by
  rw [← h.take_eq hnone, h.left_eq, List.take_append_drop]

/-- As long as something is left and there was no fault, every pull has given a character. -/
theorem Pulled.length_source (h : r.Pulled pulls n) (hnone : r.fault? = none)
    (hleft : r.left ≠ []) : r.source.length = n := by
  have hlt : n < pulls.length := Nat.lt_of_not_le fun hle =>
    hleft (h.left_eq.trans (List.drop_eq_nil_of_le hle))
  have hlength := congrArg List.length (h.take_eq hnone)
  rw [List.length_take, List.length_map] at hlength
  omega

/-- After some characters a pull gives the next one with its offset, if there is one before the
first fault. -/
theorem Pulled.fst_pull (cs : List Char) {rest : List Char} (h : r.Pulled pulls cs.length)
    (hcs : Utf8.characters pulls = cs ++ rest) :
    r.pull.1 = rest.head?.map fun c => (.ofNat (byteLength cs), c) := by
  obtain ⟨more, hpulls, hmore⟩ := Utf8.exists_eq_characters_append pulls
  rw [hcs, List.map_append, List.append_assoc] at hpulls
  have htake : pulls.take cs.length = cs.map .ok := by
    rw [hpulls, List.take_left' (List.length_map _)]
  have hleft : r.left = rest.map .ok ++ more := by
    rw [h.left_eq, hpulls, List.drop_left' (List.length_map _)]
  unfold Recorder.pull
  rw [hleft]
  cases rest with
  | cons c rest =>
    have hnone : r.fault? = none := by
      rw [h.fault?_eq, htake, Utf8.lastFault?_map_ok]
    have hsource : r.source = cs :=
      -- all pulls so far were characters, and they are what the recorder holds
      List.map_injective_iff.2 (fun _ _ h => Except.ok.inj h)
        ((h.take_eq hnone).symm.trans htake)
    rw [← hsource, ← h.offset_eq hnone]
    rfl
  | nil =>
    cases more with
    | nil => rfl
    | cons p more =>
      cases p with
      | ok c => exact absurd rfl (hmore c more)
      | error fault => rfl

end Recorder

/-! ### Windows -/

/-- **A window of two characters** on a text that is being decoded, with their offsets. -/
structure Window where
  position : UInt32
  nextPosition : UInt32
  char? : Option Char
  nextChar? : Option Char
  recorder : Recorder

namespace Window

/-- The window one character further. Where there is no other character, the offset after the
next one is told from its length. -/
def advance (w : Window) : Window :=
  match w.recorder.pull with
  | (some (offset, c), recorder) => ⟨w.nextPosition, offset, w.nextChar?, some c, recorder⟩
  | (none, recorder) =>
    ⟨w.nextPosition, w.nextPosition + .ofNat ((w.nextChar?.map Char.utf8Size).getD 0),
      w.nextChar?, none, recorder⟩

@[simp] theorem position_advance (w : Window) : w.advance.position = w.nextPosition := by
  unfold advance
  split <;> rfl

@[simp] theorem char?_advance (w : Window) : w.advance.char? = w.nextChar? := by
  unfold advance
  split <;> rfl

@[simp] theorem recorder_advance (w : Window) : w.advance.recorder = w.recorder.pull.2 := by
  unfold advance
  split <;> next h => rw [h]

theorem nextChar?_advance (w : Window) :
    w.advance.nextChar? = w.recorder.pull.1.map Prod.snd := by
  unfold advance
  split <;> next h => rw [h]; rfl

theorem nextPosition_advance (w : Window) :
    w.advance.nextPosition = (w.recorder.pull.1.map Prod.fst).getD
      (w.nextPosition + .ofNat ((w.nextChar?.map Char.utf8Size).getD 0)) := by
  unfold advance
  split <;> next h => rw [h]; rfl

/-- The window at the beginning of a text, after the first two pulls. -/
def ofPulls (pulls : List (Except ReadFault Char)) : Window :=
  (⟨0, 0, none, none, .ofPulls pulls⟩ : Window).advance.advance

/-- A bound on the characters that are left. -/
def size (w : Window) : Nat :=
  w.recorder.left.length + w.nextChar?.toList.length + w.char?.toList.length

theorem size_advance_lt {w : Window} {c : Char} (h : w.char? = some c) :
    w.advance.size < w.size := by
  unfold size advance
  rw [h, Option.toList_some, List.length_singleton]
  split
  · next offset c recorder hpull =>
    have hlt := Recorder.length_left_pull_lt (congrArg Prod.fst hpull)
    rw [hpull] at hlt
    dsimp only at hlt ⊢
    rw [Option.toList_some, List.length_singleton]
    omega
  · next recorder hpull =>
    have hle := w.recorder.length_left_pull_le
    rw [hpull] at hle
    dsimp only at hle ⊢
    rw [Option.toList_none, List.length_nil]
    omega

/-- The longest run of characters in a class, and the window after it. -/
def takeWhile (p : Char → Bool) (w : Window) : List Char × Window :=
  match _h : w.char? with
  | none => ([], w)
  | some c =>
    if p c then
      let (cs, after) := takeWhile p w.advance
      (c :: cs, after)
    else ([], w)
termination_by w.size
decreasing_by exact size_advance_lt (by assumption)

/-- The window some characters further. -/
def skip : Nat → Window → Window
  | 0, w => w
  | n + 1, w => skip n w.advance

/-- The lexeme from an offset to a window. -/
def lexeme (start : UInt32) (token : Token) (after : Window) : Reading × Window :=
  (.ok ⟨token, start, after.position⟩, after)

/-- The error from an offset to a window. -/
def error (start : UInt32) (cause : LexicalCause) (after : Window) : Reading × Window :=
  (.error ⟨cause, start, after.position⟩, after)

/-- A keyword or a name. -/
def word (w : Window) : Reading × Window :=
  let (cs, after) := w.takeWhile Cursor.inWord
  let token := match Keyword.ofText? (String.ofList cs) with
    | some keyword => .keyword keyword
    | none => .name (String.ofList cs)
  lexeme w.position token after

/-- An integer. -/
def number (w : Window) : Reading × Window :=
  let (cs, after) := w.takeWhile Char.isDigit
  match Integer.ofInt? (Cursor.decimal cs) with
  | some value => lexeme w.position (.integer value) after
  | none => error w.position .integerOverflow after

/-- The rest of a string that begins at an offset. The backslash of an escape is a byte before
its letter. -/
def stringFrom (start : UInt32) (value : List Char) (w : Window) : Reading × Window :=
  match _h : w.char? with
  | none => error start .missingStringEnd w
  | some '"' => lexeme start (.string (String.ofList value.reverse)) w.advance
  | some '\\' =>
    match _h' : w.advance.char? with
    | none => error start .missingStringEnd w.advance
    | some letter =>
      match Cursor.unescape? letter with
      | some c => stringFrom start (c :: value) w.advance.advance
      | none => error (w.advance.position - 1) (.unknownEscape letter) w.advance.advance
  | some c => stringFrom start (c :: value) w.advance
termination_by w.size
decreasing_by
  · exact Nat.lt_trans (size_advance_lt (by assumption)) (size_advance_lt (by assumption))
  · exact size_advance_lt (by assumption)

/-- The lexeme that begins at a window, blanks not being skipped. -/
def read (w : Window) : Reading × Window :=
  match w.char? with
  | none => lexeme w.position .eof w
  | some c =>
    if c = '/' ∧ w.nextChar? = some '/' then
      lexeme w.position .comment (w.takeWhile (· != '\n')).2
    else if c = '"' then stringFrom w.position [] w.advance
    else if Cursor.beginsWord c then word w
    else if c.isDigit then number w
    else match Symbol.longest? (c :: w.nextChar?.toList) with
      | some (sign, _) => lexeme w.position (.symbol sign) (skip sign.chars.length w)
      | none => error w.position (.unrecognized c) w.advance

/-- One reading from a window: the next lexeme after any blanks. -/
def next (w : Window) : Reading × Window :=
  (w.takeWhile isBlank).2.read

/-! ### Windows and cursors -/

/-- **A window stands at a place of the text** before the first fault. -/
structure At (pulls : List (Except ReadFault Char)) (c : Cursor) (w : Window) : Prop where
  position_eq : w.position = .ofNat c.offset
  char?_eq : w.char? = c.rest.head?
  next_eq : ∀ x rest, c.rest = x :: rest →
    w.nextChar? = rest.head? ∧ w.nextPosition = .ofNat (c.offset + x.utf8Size)
  exists_passed : ∃ passed, Utf8.characters pulls = passed ++ c.rest ∧
    c.offset = byteLength passed ∧ w.recorder.Pulled pulls (passed.length + 2)

namespace At

variable {pulls : List (Except ReadFault Char)} {offset : Nat} {x : Char} {rest : List Char}
  {w : Window}

/-- **A window goes one character further** like a cursor does. -/
theorem advance (h : At pulls ⟨offset, x :: rest⟩ w) :
    At pulls ⟨offset + x.utf8Size, rest⟩ w.advance := by
  obtain ⟨-, -, hnext, passed, hcharacters, hoffset, hpulled⟩ := h
  obtain ⟨hnextChar, hnextPosition⟩ := hnext x rest rfl
  refine ⟨?_, ?_, ?_, passed ++ [x], ?_, ?_, ?_⟩
  · rw [position_advance, hnextPosition]
  · rw [char?_advance, hnextChar]
  · rintro y rest rfl
    -- both characters of the window have been pulled
    have hsplit : Utf8.characters pulls = (passed ++ [x, y]) ++ rest := by
      rw [hcharacters, List.append_assoc]
      rfl
    have hpull := Recorder.Pulled.fst_pull (passed ++ [x, y])
      (by rw [List.length_append]; exact hpulled) hsplit
    have hlength : byteLength (passed ++ [x, y]) = offset + x.utf8Size + y.utf8Size := by
      rw [Text.byteLength_append, ← hoffset, Nat.add_assoc]
      rfl
    rw [nextChar?_advance, nextPosition_advance, hpull, hlength, hnextPosition, hnextChar]
    cases rest with
    | nil => exact ⟨rfl, (UInt32.ofNat_add _ _).symm⟩
    | cons z rest => exact ⟨rfl, rfl⟩
  · rw [hcharacters, List.append_assoc]
    rfl
  · rw [Text.byteLength_append, ← hoffset]
    rfl
  · rw [List.length_append, List.length_singleton, recorder_advance]
    exact hpulled.pull

end At

/-- **The window at the beginning of a text.** -/
theorem at_ofPulls (pulls : List (Except ReadFault Char)) :
    At pulls (.ofChars (Utf8.characters pulls)) (ofPulls pulls) := by
  have h₀ := Recorder.pulled_ofPulls pulls
  have h₁ := h₀.pull
  have hpull₀ := Recorder.Pulled.fst_pull [] h₀ rfl
  refine ⟨?_, ?_, fun x rest hrest => ?_, [], rfl, rfl, ?_⟩
  · rw [ofPulls, position_advance, nextPosition_advance, hpull₀]
    cases Utf8.characters pulls <;> rfl
  · rw [ofPulls, char?_advance, nextChar?_advance, hpull₀]
    cases Utf8.characters pulls <;> rfl
  · have hcharacters : Utf8.characters pulls = [x] ++ rest := hrest
    have hpull₁ := Recorder.Pulled.fst_pull [x] h₁ hcharacters
    rw [ofPulls, nextChar?_advance, nextPosition_advance, recorder_advance, hpull₁,
      nextChar?_advance, nextPosition_advance, hpull₀, hcharacters]
    cases rest <;> exact ⟨rfl, by simp [Cursor.ofChars]⟩
  · rw [ofPulls, recorder_advance, recorder_advance]
    exact h₁.pull

/-! ### Readings -/

/-- A reading from a window is that of a cursor, and both then stand at the same place. -/
structure Agrees (pulls : List (Except ReadFault Char)) (r : Reading × Cursor)
    (r' : Reading × Window) : Prop where
  reading_eq : r'.1 = r.1
  at_after : At pulls r.2 r'.2

section Readings

variable {pulls : List (Except ReadFault Char)} {c : Cursor} {w : Window}

theorem agrees_lexeme (h : At pulls c w) (token : Token) {start : UInt32} {c' : Cursor}
    (hstart : start = .ofNat c'.offset) :
    Agrees pulls (c'.lexeme token c) (lexeme start token w) := by
  refine ⟨?_, h⟩
  rw [lexeme, hstart, h.position_eq]
  rfl

theorem agrees_error (h : At pulls c w) (cause : LexicalCause) {start : UInt32} {c' : Cursor}
    (hstart : start = .ofNat c'.offset) :
    Agrees pulls (c'.error cause c) (error start cause w) := by
  refine ⟨?_, h⟩
  rw [error, hstart, h.position_eq]
  rfl

theorem at_takeWhile (p : Char → Bool) : ∀ {cs : List Char} {offset : Nat} {w : Window},
    At pulls ⟨offset, cs⟩ w →
    (w.takeWhile p).1 = cs.takeWhile p ∧
      At pulls (Cursor.dropWhile ⟨offset, cs⟩ p) (w.takeWhile p).2
  | [], offset, w, h => by
    rw [takeWhile]
    split
    · exact ⟨rfl, h⟩
    · next hchar =>
      rw [h.char?_eq] at hchar
      cases hchar
  | x :: rest, offset, w, h => by
    rw [takeWhile]
    -- both the window and the cursor look at the next character
    split
    · next hchar =>
      rw [h.char?_eq] at hchar
      cases hchar
    · next y hchar =>
      rw [h.char?_eq] at hchar
      cases hchar
      obtain ⟨hrest, hat⟩ := at_takeWhile p h.advance
      rw [Cursor.dropWhile]
      by_cases hx : p x = true
      · simp only [if_pos hx, List.takeWhile_cons, List.dropWhile_cons, Text.byteLength_cons,
          ← Nat.add_assoc, hrest]
        exact ⟨trivial, hat⟩
      · simp only [if_neg hx, List.takeWhile_cons, List.dropWhile_cons]
        exact ⟨trivial, h⟩

theorem agrees_word (h : At pulls c w) : Agrees pulls c.word w.word := by
  obtain ⟨hcs, hat⟩ := at_takeWhile Cursor.inWord h
  unfold word Cursor.word
  dsimp only
  rw [hcs]
  exact agrees_lexeme hat _ h.position_eq

theorem agrees_number (h : At pulls c w) : Agrees pulls c.number w.number := by
  obtain ⟨hcs, hat⟩ := at_takeWhile Char.isDigit h
  unfold number Cursor.number
  dsimp only
  rw [hcs]
  cases Integer.ofInt? (Cursor.decimal (c.rest.takeWhile Char.isDigit)) with
  | some value => exact agrees_lexeme hat _ h.position_eq
  | none => exact agrees_error hat _ h.position_eq

theorem stringFrom_of_none {start : UInt32} {value : List Char} (h : w.char? = none) :
    stringFrom start value w = error start .missingStringEnd w := by
  rw [stringFrom]
  split <;> next hchar => first | rfl | (rw [h] at hchar; cases hchar)

theorem stringFrom_of_some {start : UInt32} {value : List Char} {x : Char} (h : w.char? = some x) :
    stringFrom start value w =
      if x = '"' then lexeme start (.string (String.ofList value.reverse)) w.advance
      else if x = '\\' then
        match w.advance.char? with
        | none => error start .missingStringEnd w.advance
        | some letter =>
          match Cursor.unescape? letter with
          | some c => stringFrom start (c :: value) w.advance.advance
          | none => error (w.advance.position - 1) (.unknownEscape letter) w.advance.advance
      else stringFrom start (x :: value) w.advance := by
  rw [stringFrom]
  split
  · next hchar =>
    rw [h] at hchar
    cases hchar
  · next hchar =>
    rw [h] at hchar
    cases hchar
    rfl
  · next hchar =>
    rw [h] at hchar
    cases hchar
    rw [if_neg (by decide), if_pos rfl]
    split <;> next hletter => rw [hletter]
  · next y hquote hbackslash hchar =>
    rw [h] at hchar
    cases hchar
    rw [if_neg hquote, if_neg hbackslash]

theorem agrees_stringFrom (start : Cursor) (cs : List Char) (offset : Nat) (value : List Char)
    (h : At pulls ⟨offset, cs⟩ w) :
    Agrees pulls (start.stringFrom offset value cs) (stringFrom (.ofNat start.offset) value w) := by
  fun_induction Cursor.stringFrom start offset value cs generalizing w with
  | case1 offset value =>
    rw [stringFrom_of_none h.char?_eq]
    exact agrees_error h _ rfl
  | case2 offset value rest =>
    rw [stringFrom_of_some h.char?_eq, if_pos rfl]
    exact agrees_lexeme h.advance _ rfl
  | case3 offset value =>
    rw [stringFrom_of_some h.char?_eq, if_neg (by decide), if_pos rfl, h.advance.char?_eq]
    exact agrees_error h.advance _ rfl
  | case4 offset value letter rest after char hchar =>
    rename_i ih
    rw [stringFrom_of_some h.char?_eq, if_neg (by decide), if_pos rfl, h.advance.char?_eq]
    dsimp only [List.head?]
    rw [hchar]
    exact ih h.advance.advance
  | case5 offset value letter rest after =>
    rename_i hchar
    rw [stringFrom_of_some h.char?_eq, if_neg (by decide), if_pos rfl, h.advance.char?_eq]
    dsimp only [List.head?]
    rw [hchar]
    -- the backslash is one byte before the letter, also where the offset starts again
    have hbackslash : w.advance.position - 1 = .ofNat offset := by
      rw [h.advance.position_eq]
      show UInt32.ofNat (offset + 1) - 1 = .ofNat offset
      rw [UInt32.ofNat_add]
      exact UInt32.add_sub_cancel _ _
    exact agrees_error h.advance.advance _ hbackslash
  | case6 offset value char rest hquote hend hescape ih =>
    have hbackslash : char ≠ '\\' := by
      rintro rfl
      cases rest with
      | nil => exact hend rfl rfl
      | cons letter rest => exact hescape letter rest rfl rfl
    rw [stringFrom_of_some h.char?_eq, if_neg hquote, if_neg hbackslash]
    exact ih h.advance

theorem at_skip : ∀ (taken : List Char) {offset : Nat} {rest : List Char} {w : Window},
    At pulls ⟨offset, taken ++ rest⟩ w →
    At pulls ⟨offset + byteLength taken, rest⟩ (skip taken.length w)
  | [], _, _, _, h => h
  | x :: taken, offset, rest, w, h => by
    rw [Text.byteLength_cons, ← Nat.add_assoc]
    exact at_skip taken h.advance

/-- The two characters of a window tell which symbol is the longest. -/
theorem longest?_head? (x : Char) (rest : List Char) :
    (Symbol.longest? (x :: rest.head?.toList)).map Prod.fst =
      (Symbol.longest? (x :: rest)).map Prod.fst := by
  cases hlongest : Symbol.longest? (x :: rest) with
  | none => rw [Cursor.longest?_eq_none hlongest]
  | some found =>
    obtain ⟨sign, after⟩ := found
    obtain ⟨more, hmore⟩ := Cursor.head?_chars_of_longest? hlongest
    have happend := Symbol.chars_append_of_longest? hlongest
    rw [hmore, List.cons_append] at happend
    obtain ⟨-, rfl⟩ := List.cons.inj happend
    cases more with
    | nil =>
      have hhead : after.head?.toList.head? = after.head? := by cases after <;> rfl
      have hsame := Cursor.longest?_append hlongest hhead
      rw [hmore] at hsame
      rw [List.nil_append, ← List.singleton_append, hsame]
      rfl
    | cons y more => cases sign <;> cases hmore <;> rfl

theorem agrees_read (h : At pulls c w) : Agrees pulls c.read w.read := by
  obtain ⟨offset, cs⟩ := c
  unfold read
  rw [h.char?_eq]
  cases cs with
  | nil => exact agrees_lexeme h _ h.position_eq
  | cons x rest =>
    obtain ⟨hnext, -⟩ := h.next_eq x rest rfl
    dsimp only [List.head?]
    by_cases hcomment : x = '/' ∧ w.nextChar? = some '/'
    · rw [if_pos hcomment]
      obtain ⟨rfl, hslash⟩ := hcomment
      obtain ⟨rest, rfl⟩ := List.head?_eq_some_iff.1 (hnext.symm.trans hslash)
      exact agrees_lexeme (at_takeWhile (· != '\n') h).2 _ h.position_eq
    rw [if_neg hcomment]
    by_cases hquote : x = '"'
    · subst hquote
      rw [if_pos rfl, h.position_eq]
      exact agrees_stringFrom ⟨offset, '"' :: rest⟩ rest _ [] h.advance
    have hnocomment : ∀ cs', x :: rest ≠ '/' :: '/' :: cs' := by
      intro cs' heq
      obtain ⟨rfl, rfl⟩ := List.cons.inj heq
      exact hcomment ⟨rfl, hnext⟩
    rw [if_neg hquote, Cursor.read_of_ne hquote offset hnocomment]
    split
    · exact agrees_word h
    split
    · exact agrees_number h
    -- the same symbol is found in the window as in the whole text
    have hlongest := longest?_head? x rest
    rw [hnext]
    cases hfound : Symbol.longest? (x :: rest) with
    | none =>
      rw [hfound, Option.map_none, Option.map_eq_none_iff] at hlongest
      rw [hlongest]
      exact agrees_error h.advance _ h.position_eq
    | some found =>
      rw [hfound, Option.map_some, Option.map_eq_some_iff] at hlongest
      obtain ⟨⟨sign, more⟩, hsign, rfl⟩ := hlongest
      rw [hsign]
      refine agrees_lexeme (at_skip found.1.chars ?_) _ h.position_eq
      rw [Symbol.chars_append_of_longest? hfound]
      exact h

/-- One reading from a window is that of a cursor at the same place. -/
theorem agrees_next (h : At pulls c w) : Agrees pulls c.next w.next :=
  agrees_read (at_takeWhile isBlank h).2

/-- **Whatever a cursor is asked for**, a window at the same place gives it too. -/
theorem At.feeds {c' : Cursor} {l : List Lexeme} {reading : Reading} (h : At pulls c w)
    (hfeeds : Feeds Cursor.next c l reading c') :
    ∃ w', Feeds next w l reading w' ∧ At pulls c' w' := by
  induction hfeeds generalizing w with
  | @look c c' reading hnext hcomment =>
    obtain ⟨hreading, hat⟩ := agrees_next h
    rw [hnext] at hreading hat
    exact ⟨w.next.2, .look (Prod.ext hreading rfl) hcomment, hat⟩
  | skip hnext _ ih =>
    obtain ⟨hreading, hat⟩ := agrees_next h
    rw [hnext] at hreading hat
    obtain ⟨w', hfeeds, hat'⟩ := ih hat
    exact ⟨w', .skip (Prod.ext hreading rfl) hfeeds, hat'⟩
  | take hnext heof hcomment _ ih =>
    obtain ⟨hreading, hat⟩ := agrees_next h
    rw [hnext] at hreading hat
    obtain ⟨w', hfeeds, hat'⟩ := ih hat
    exact ⟨w', .take (Prod.ext hreading rfl) heof hcomment hfeeds, hat'⟩

theorem At.of_feeds {w' : Window} {l : List Lexeme} {reading : Reading} (h : At pulls c w)
    (hfeeds : Feeds next w l reading w') :
    ∃ c', Feeds Cursor.next c l reading c' ∧ At pulls c' w' := by
  induction hfeeds generalizing c with
  | @look w w' reading hnext hcomment =>
    obtain ⟨hreading, hat⟩ := agrees_next h
    rw [hnext] at hreading hat
    exact ⟨c.next.2, .look (Prod.ext hreading.symm rfl) hcomment, hat⟩
  | skip hnext _ ih =>
    obtain ⟨hreading, hat⟩ := agrees_next h
    rw [hnext] at hreading hat
    obtain ⟨c', hfeeds, hat'⟩ := ih hat
    exact ⟨c', .skip (Prod.ext hreading.symm rfl) hfeeds, hat'⟩
  | take hnext heof hcomment _ ih =>
    obtain ⟨hreading, hat⟩ := agrees_next h
    rw [hnext] at hreading hat
    obtain ⟨c', hfeeds, hat'⟩ := ih hat
    exact ⟨c', .take (Prod.ext hreading.symm rfl) heof hcomment hfeeds, hat'⟩

end Readings

end Window

end Script

import Script.Proofs.Syntax.RoundTrip
import Script.Store.Text

/-!
# Data and its text

Data is what can be written down without a name: integers, truth values and strings, and arrays and
maps of data. Its text is parsed as one expression, which writes the same data: a negative integer
with a minus sign in front, all else as a literal. A map begins with a brace, but a program holds no
blocks, so even there it is read as a map.

* `Data`: data all of whose text can be read;
* `Data.text`, `Data.tokens`, `Data.literal`: data as a text, as tokens and as an expression;
* `Data.parse_literal`: what the text of data is parsed as.
-/

namespace Script

open Grammar

/-! ### Data -/

/-- What can be read from its text. The least integer cannot: its text is a minus sign and a
number that is no integer. -/
def Key.Readable : Key → Prop
  | integer value => value ≠ Int64.minValue
  | boolean _ => True
  | string value => ∀ c ∈ value.toList, Text.Plain c

/-- Data that holds no other data. It may be a key of a map. -/
structure Atom where
  key : Key
  readable : key.Readable

/-- **Data.** -/
inductive Data where
  | atom (atom : Atom)
  | array (elements : List Data)
  | map (pairs : List (Atom × Data))

namespace Data

/-- Induction on data: what holds of data whose parts it holds of holds of all data. -/
@[induction_eliminator]
theorem induction {P : Data → Prop} (atom : ∀ a, P (.atom a))
    (array : ∀ elements, (∀ d ∈ elements, P d) → P (.array elements))
    (map : ∀ pairs, (∀ p ∈ pairs, P p.2) → P (.map pairs)) : ∀ d, P d :=
  @Data.rec P (fun elements => ∀ d ∈ elements, P d) (fun pairs => ∀ p ∈ pairs, P p.2)
    (fun p => P p.2) atom array map (List.forall_mem_nil _)
    (fun _ _ hd hds => List.forall_mem_cons.2 ⟨hd, hds⟩) (List.forall_mem_nil _)
    (fun _ _ hp hps => List.forall_mem_cons.2 ⟨hp, hps⟩) fun _ _ hd => hd

end Data

/-! ### Writing it down -/

/-- The tokens of an atom. -/
def Key.tokens : Key → List Token
  | integer value =>
    if Int64.toInt value < 0 then [.symbol .minus, .integer (-value)] else [.integer value]
  | boolean value => [.keyword (if value then .trueWord else .falseWord)]
  | string value => [.string value]

/-- The expression that writes an atom. -/
def Key.literal : Key → Expr
  | integer value =>
    if Int64.toInt value < 0 then .unary .minus (.integer (-value) .none) .none
    else .integer value .none
  | boolean value => .boolean value .none
  | string value => .string value .none

namespace Data

mutual

/-- Data as a text. -/
def text : Data → String
  | .atom a => a.key.text
  | .array elements => "[" ++ joinWith ", " (texts elements) ++ "]"
  | .map pairs => "\x7b" ++ joinWith ", " (pairTexts pairs) ++ "\x7d"
termination_by structural d => d

/-- The text of each of some data. -/
def texts : List Data → List String
  | [] => []
  | d :: rest => d.text :: texts rest
termination_by structural ds => ds

/-- The texts of the pairs of a map: key, colon, data. -/
def pairTexts : List (Atom × Data) → List String
  | [] => []
  | (a, d) :: rest => (a.key.text ++ ": " ++ d.text) :: pairTexts rest
termination_by structural ps => ps

end

mutual

/-- The tokens of data. -/
def tokens : Data → List Token
  | .atom a => a.key.tokens
  | .array elements =>
    .symbol .leftBracket :: (commaSeparated (tokenLists elements) ++ [.symbol .rightBracket])
  | .map pairs =>
    .symbol .leftBrace :: (commaSeparated (pairTokenLists pairs) ++ [.symbol .rightBrace])
termination_by structural d => d

/-- The tokens of each of some data. -/
def tokenLists : List Data → List (List Token)
  | [] => []
  | d :: rest => d.tokens :: tokenLists rest
termination_by structural ds => ds

/-- The tokens of each of some pairs. -/
def pairTokenLists : List (Atom × Data) → List (List Token)
  | [] => []
  | (a, d) :: rest => (a.key.tokens ++ .symbol .colon :: d.tokens) :: pairTokenLists rest
termination_by structural ps => ps

end

mutual

/-- The expression that writes data. -/
def literal : Data → Expr
  | .atom a => a.key.literal
  | .array elements => .array (literals elements) .none
  | .map pairs => .map (pairLiterals pairs) .none
termination_by structural d => d

/-- The expressions that write some data. -/
def literals : List Data → List Expr
  | [] => []
  | d :: rest => d.literal :: literals rest
termination_by structural ds => ds

/-- The expressions that write some pairs. -/
def pairLiterals : List (Atom × Data) → List (Expr × Expr)
  | [] => []
  | (a, d) :: rest => (a.key.literal, d.literal) :: pairLiterals rest
termination_by structural ps => ps

end

theorem texts_eq_map : ∀ ds, texts ds = ds.map text
  | [] => rfl
  | d :: rest => by rw [texts, List.map_cons, texts_eq_map rest]

theorem pairTexts_eq_map : ∀ ps, pairTexts ps = ps.map fun p => p.1.key.text ++ ": " ++ p.2.text
  | [] => rfl
  | (a, d) :: rest => by rw [pairTexts, List.map_cons, pairTexts_eq_map rest]

theorem tokenLists_eq_map : ∀ ds, tokenLists ds = ds.map tokens
  | [] => rfl
  | d :: rest => by rw [tokenLists, List.map_cons, tokenLists_eq_map rest]

theorem pairTokenLists_eq_map : ∀ ps,
    pairTokenLists ps = ps.map fun p => p.1.key.tokens ++ .symbol .colon :: p.2.tokens
  | [] => rfl
  | (a, d) :: rest => by rw [pairTokenLists, List.map_cons, pairTokenLists_eq_map rest]

theorem literals_eq_map : ∀ ds, literals ds = ds.map literal
  | [] => rfl
  | d :: rest => by rw [literals, List.map_cons, literals_eq_map rest]

theorem pairLiterals_eq_map : ∀ ps, pairLiterals ps = ps.map fun p => (p.1.key.literal, p.2.literal)
  | [] => rfl
  | (a, d) :: rest => by rw [pairLiterals, List.map_cons, pairLiterals_eq_map rest]

end Data

/-! ### Atoms -/

/-- Only the least integer has no negative. -/
theorem Integer.toInt_neg {value : Integer} (h : value ≠ Int64.minValue) :
    Int64.toInt (-value) = -Int64.toInt value := by
  have hlow : -2 ^ 63 ≤ Int64.toInt value := Int64.le_toInt value
  have hhigh : Int64.toInt value < 2 ^ 63 := Int64.toInt_lt value
  have hne : Int64.toInt value ≠ -2 ^ 63 := fun heq => h (Int64.toInt_inj.1 heq)
  rw [Int64.toInt_neg, Int.bmod_eq_of_le (by omega) (by omega)]

theorem Integer.text_of_neg {value : Integer} (h : value ≠ Int64.minValue)
    (hneg : Int64.toInt value < 0) : value.text = "-" ++ Integer.text (-value) := by
  have hpos : 0 ≤ -Int64.toInt value := by omega
  rw [text, text, toInt_neg h]
  show Int.repr _ = _ ++ Int.repr _
  rw [Int.repr_eq_if, if_neg (by omega), Int.repr_eq_if, if_pos hpos]

namespace Key

variable {k : Key}

theorem prints (h : k.Readable) : Prints k.text k.tokens := by
  cases k with
  | integer value =>
    rw [text, tokens]
    split
    · next hneg =>
      have hregular : (Token.integer (-value)).Regular := by
        show 0 ≤ Int64.toInt (-value)
        rw [Integer.toInt_neg h]
        omega
      have hpos : Writable (Expr.integer (-value) .none).tokens :=
        List.forall_mem_singleton.2 ⟨hregular, trivial⟩
      rw [Integer.text_of_neg h hneg]
      exact (Expr.prints _ hpos).signed .minus (Expr.beginsApart _ hpos)
    · next hneg =>
      exact Expr.prints (.integer value .none)
        (List.forall_mem_singleton.2 ⟨Int.not_lt.1 hneg, trivial⟩)
  | boolean value =>
    exact Expr.prints (.boolean value .none) (List.forall_mem_singleton.2 ⟨trivial, trivial⟩)
  | string value =>
    exact Expr.prints (.string value .none) (List.forall_mem_singleton.2 ⟨trivial, h⟩)

theorem rebuilds (k : Key) :
    Rebuilds (.expression .assignment) Expr.erase k.tokens k.literal := by
  cases k with
  | integer value =>
    rw [tokens, literal]
    split
    · intro ls hls
      have hnumber := Expr.rebuilds (.integer (-value) .none)
      obtain ⟨e, he, herase⟩ := rebuilds_unary .minus .none hnumber ls hls
      exact ⟨e, he.weaken (by simp [Tier.rank]), herase⟩
    · exact (Expr.rebuilds (.integer value .none)).whole
  | boolean value => exact (Expr.rebuilds (.boolean value .none)).whole
  | string value => exact (Expr.rebuilds (.string value .none)).whole

theorem erase_literal (k : Key) : k.literal.erase = k.literal := by
  cases k with
  | integer value =>
    rw [literal]
    split <;> rfl
  | _ => rfl

end Key

/-! ### All data -/

namespace Data

/-- The text of data spells its tokens. -/
theorem prints (d : Data) : Prints d.text d.tokens := by
  induction d with
  | atom a => exact a.key.prints a.readable
  | array ds ih =>
    rw [text, tokens, texts_eq_map, tokenLists_eq_map]
    refine (prints_commas ?_).enclosed .leftBracket .rightBracket (fun _ => rfl) fun _ => rfl
    rw [List.forall₂_map_left_iff, List.forall₂_map_right_iff, List.forall₂_same]
    exact ih
  | map ps ih =>
    rw [text, tokens, pairTexts_eq_map, pairTokenLists_eq_map]
    refine (prints_commas ?_).enclosed .leftBrace .rightBrace (fun _ => rfl) fun _ => rfl
    rw [List.forall₂_map_left_iff, List.forall₂_map_right_iff, List.forall₂_same]
    exact fun p hp => (p.1.key.prints p.1.readable).paired (ih p hp)

/-- The tokens of data stand for the expression that writes it. -/
theorem rebuilds (d : Data) :
    Rebuilds (.expression .assignment) Expr.erase d.tokens d.literal := by
  induction d with
  | atom a => exact a.key.rebuilds
  | array ds ih =>
    rw [tokens, literal, tokenLists_eq_map, literals_eq_map]
    refine (rebuilds_array .none ?_).whole
    rw [List.forall₂_map_left_iff, List.forall₂_map_right_iff, List.forall₂_same]
    exact fun d hd => rebuilds_expressionItem (ih d hd)
  | map ps ih =>
    rw [tokens, literal, pairTokenLists_eq_map, pairLiterals_eq_map]
    refine (rebuilds_map .none ?_).whole
    rw [List.forall₂_map_left_iff, List.forall₂_map_right_iff, List.forall₂_same]
    exact fun p hp => rebuilds_pairItem p.1.key.rebuilds (ih p hp)

/-- The expression that writes data has no spans. -/
theorem erase_literal (d : Data) : d.literal.erase = d.literal := by
  induction d with
  | atom a => exact a.key.erase_literal
  | array ds ih =>
    rw [literal, Expr.erase, Expr.eraseAll_eq_map, literals_eq_map, List.map_map]
    exact congrArg (Expr.array · .none) (List.map_congr_left ih)
  | map ps ih =>
    rw [literal, Expr.erase, Expr.erasePairs_eq_map, pairLiterals_eq_map, List.map_map]
    refine congrArg (Expr.map · .none) (List.map_congr_left fun p hp => ?_)
    exact Prod.ext p.1.key.erase_literal (ih p hp)

/-- **The text of data is parsed as one expression**, which writes it, unless it has many tokens and
nests too deep. -/
theorem parse_literal (d : Data) :
    maxNesting ≤ d.tokens.length ∧
        (∃ error, Program.parse d.text = .error error ∧ error.cause = .nestingTooDeep) ∨
      ∃ e span, Program.parse d.text = .ok ⟨[.expression e], span⟩ ∧ e.erase = d.literal := by
  obtain ⟨htokens, stop, hending⟩ := d.prints.spells 0 0
  obtain ⟨e, he, herase⟩ := d.rebuilds _ htokens
  rw [d.erase_literal] at herase
  have hprogram : IsProgram (LexemeStream.ofText d.text).lexemes stop ⟨[.expression e], _⟩ :=
    ⟨.lastNode (.expressionNode he), rfl⟩
  rcases Program.parse_of_isProgram hending hprogram with ⟨hmany, hdeep⟩ | hparse
  · refine .inl ⟨?_, hdeep⟩
    rw [← htokens, List.length_map]
    exact hmany
  · exact .inr ⟨e, _, hparse, herase⟩

end Data

end Script

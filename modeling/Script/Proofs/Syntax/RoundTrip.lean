import Script.Proofs.Parser.Language
import Script.Proofs.Syntax.Derivation
import Script.Proofs.Syntax.Spelling

/-!
# Printing and parsing again

The canonical text of a program that has been parsed is parsed as the same program but for its
spans, as far as its strings can be read and its nesting allows: the printed text nests deeper.

* `regular_of_derives`: a tree that has been parsed holds only tokens that texts hold;
* `Program.parse_text`: what the canonical text is parsed as.
-/

namespace Script

open Grammar

/-! ### The tokens of what has been parsed -/

/-- The tokens of an item. -/
def Grammar.Item.tokens : (kind : Item) → kind.Tree → List Token
  | .expression, e => e.tokens
  | .pair, kv => kv.1.tokens ++ .symbol .colon :: kv.2.tokens
  | .parameter, ident => [.name ident.name]

/-- The tokens of the tree of a phrase. -/
def Grammar.Phrase.tokens : (phrase : Phrase) → phrase.Tree → List Token
  | .expression _, e => e.tokens
  | .item kind, x => kind.tokens x
  | .items kind, xs => commaSeparated (xs.map kind.tokens)
  | .furtherItems kind, xs => commaSeparated (xs.map kind.tokens)
  | .block, b => b.tokens
  | .body, ns => semicolonSeparated (ns.map Node.tokens)
  | .node, n => n.tokens
  | .conditional, n => n.tokens
  | .alternative, b => b.tokens

/-- Tokens that texts hold. -/
def AllRegular (tokens : List Token) : Prop :=
  ∀ token ∈ tokens, token.Regular

section AllRegular

variable {token : Token} {tokens tokens' : List Token}

@[simp] theorem allRegular_nil : AllRegular [] := by
  rintro token ⟨⟩

@[simp] theorem allRegular_cons :
    AllRegular (token :: tokens) ↔ token.Regular ∧ AllRegular tokens :=
  List.forall_mem_cons

@[simp] theorem allRegular_append :
    AllRegular (tokens ++ tokens') ↔ AllRegular tokens ∧ AllRegular tokens' :=
  List.forall_mem_append

@[simp] theorem allRegular_commaSeparated {tokenLists : List (List Token)} :
    AllRegular (commaSeparated tokenLists) ↔ ∀ tokens ∈ tokenLists, AllRegular tokens :=
  forall_mem_intercalate trivial

@[simp] theorem allRegular_semicolonSeparated {tokenLists : List (List Token)} :
    AllRegular (semicolonSeparated tokenLists) ↔ ∀ tokens ∈ tokenLists, AllRegular tokens :=
  forall_mem_intercalate trivial

@[simp] theorem regular_symbol (sign : Symbol) : (Token.symbol sign).Regular :=
  trivial

@[simp] theorem regular_keyword (word : Keyword) : (Token.keyword word).Regular :=
  trivial

@[simp] theorem regular_string (value : String) : (Token.string value).Regular :=
  trivial

end AllRegular

/-- **A tree tells no other names and integers** than those of its lexemes. -/
theorem regular_of_derives {phrase : Phrase} {l : List Lexeme} {t : phrase.Tree}
    (h : Derives phrase l t) : AllRegular (l.map (·.token)) → AllRegular (phrase.tokens t) := by
  -- each rule joins the tokens of its parts by symbols and keywords, which are always regular
  induction h with
  | map _ ih =>
    intro hl
    simp only [List.map_cons, List.map_append, List.map_nil, allRegular_cons,
      allRegular_append] at hl
    have hpairs := ih hl.2.1
    simp only [Phrase.tokens, Expr.tokens, Expr.pairTokenLists_eq_map, allRegular_cons,
      allRegular_append, allRegular_commaSeparated] at hpairs ⊢
    exact ⟨trivial, hpairs, trivial, allRegular_nil⟩
  | _ =>
    simp_all [Phrase.tokens, Item.tokens, Expr.tokens, Node.tokens, Block.tokens, parenthesized,
      Expr.tokenLists_eq_map, Node.tokenLists_eq_map]

/-! ### What the canonical text is parsed as -/

namespace Program

/-- A program whose strings can be read where its text shows them: every character is shown as
itself or by one of the escapes of the language. -/
def Readable (program : Program) : Prop :=
  ∀ token ∈ program.tokens, token.Plain

theorem writable_of_parse {text : String} {program : Program} (h : parse text = .ok program)
    (hreadable : program.Readable) : Writable program.tokens := by
  obtain ⟨offset, -, hbody, -⟩ := isProgram_of_parse h
  have hlexemes : AllRegular ((LexemeStream.ofText text).lexemes.map (·.token)) := by
    intro token htoken
    obtain ⟨x, hx, rfl⟩ := List.mem_map.1 htoken
    exact LexemeStream.regular_of_mem_ofText hx
  have hregular := regular_of_derives hbody hlexemes
  rw [Phrase.tokens, ← Node.tokenLists_eq_map] at hregular
  exact fun token htoken => ⟨hregular token htoken, hreadable token htoken⟩

/-- **Printing and then parsing gives the same program back**, spans aside, unless the printed text
nests too deep. -/
theorem parse_text {text : String} {program : Program} (h : parse text = .ok program)
    (hreadable : program.Readable) :
    (∃ error, parse program.text = .error error ∧ error.cause = .nestingTooDeep) ∨
      ∃ program', parse program.text = .ok program' ∧ program'.erase = program.erase := by
  -- the text is read as the tokens of the tree, and those stand for the tree
  obtain ⟨htokens, stop, hending⟩ :=
    program.spells (writable_of_parse h hreadable) 0 0
  obtain ⟨nodes, hnodes, herase⟩ := program.rebuilds _ htokens
  have hprogram : IsProgram (LexemeStream.ofText program.text).lexemes stop ⟨nodes, _⟩ :=
    ⟨hnodes, rfl⟩
  refine (parse_of_isProgram hending hprogram).imp (·.2) fun hparse => ⟨_, hparse, ?_⟩
  rw [erase, herase, erase]

/-- An `else if` and a string that needs an escape. -/
theorem parse_text_elseIf : ∃ program,
    parse "if a { b } else if c { d } \"\\t\"" = .ok program ∧ program.Readable ∧
      ((∃ error, parse program.text = .error error ∧ error.cause = .nestingTooDeep) ∨
        ∃ program', parse program.text = .ok program' ∧ program'.erase = program.erase) := by
  have hparse : parse "if a { b } else if c { d } \"\\t\"" =
      .ok ⟨[.conditional (.name ⟨"a", 3, 4⟩) ⟨[.expression (.name ⟨"b", 7, 8⟩)], 5, 10⟩
        (some ⟨[.conditional (.name ⟨"c", 19, 20⟩)
          ⟨[.expression (.name ⟨"d", 23, 24⟩)], 21, 26⟩ none ⟨16, 26⟩], 16, 26⟩) ⟨0, 26⟩,
        .expression (.string "\t" ⟨27, 31⟩)], 0, 31⟩ := by rfl
  suffices hreadable : Readable _ from ⟨_, hparse, hreadable, parse_text hparse hreadable⟩
  intro token htoken
  cases token with
  | string value =>
    obtain rfl : value = "\t" := by
      simpa [tokens, semicolonSeparated, Node.tokenLists, Node.tokens, Expr.tokens, Block.tokens]
        using htoken
    intro c hc
    obtain rfl := List.mem_singleton.1 hc
    exact .inr (.inr (.inr (.inr rfl)))
  | _ => trivial

end Program

end Script

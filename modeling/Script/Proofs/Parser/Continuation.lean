import Script.Proofs.Parser.Repetition
import Script.Proofs.Syntax.Derivation
import Script.Proofs.Syntax.Spelling

/-!
# Parsers and what comes after

A parser that stops at the end of its lexemes may go on where more lexemes come after them. What it
has read by then stays read, as long as the next lexeme does not go on with it; an error at a lexeme
stays an error; and where the text ended too early, there are tokens that mend it. The last two
hold for a parser that may use one level of nesting more than the one that has failed.

All this is said of two parsers, of which the second may use more levels (`Resumes`), and is shown
along their steps. Each step comes with the tokens that finish it where nothing has been read of it
yet (`Finishes`), since these mend the text after a step that has been mended.

* `Resumes.bind`, `Piece.bind`: steps one after another;
* `piece_expression`, `piece_block`, `piece_node`: expressions, blocks and nodes;
* `resumes_programNodes`: whole programs.
-/

namespace Script

/-! ### Tokens that fill in -/

/-- What a text that has ended too early can be mended with. -/
inductive Filler where
  | zero
  | name
  | keyword (word : Keyword)
  | symbol (sign : Symbol)

namespace Filler

/-- The token that fills in. -/
def token : Filler → Token
  | zero => .integer 0
  | name => .name "x"
  | keyword word => .keyword word
  | symbol sign => .symbol sign

theorem writable (fillers : List Filler) : Writable (fillers.map token) := by
  rintro _ hmem
  obtain ⟨filler, -, rfl⟩ := List.mem_map.1 hmem
  cases filler with
  | zero =>
    refine ⟨?_, trivial⟩
    show (0 : Int) ≤ Int64.toInt 0
    decide
  | name =>
    have hletters : ∀ c ∈ ['x'], Cursor.inWord c = true := List.forall_mem_singleton.2 rfl
    exact ⟨⟨⟨⟨'x', [], rfl, rfl⟩, hletters⟩, rfl⟩, trivial⟩
  | keyword word => exact ⟨trivial, trivial⟩
  | symbol sign => exact ⟨trivial, trivial⟩

end Filler

/-! ### States with more to come -/

namespace ParserState

variable {s s' k : ParserState} {x : Lexeme} {rest : List Lexeme}

/-- A state with more lexemes after those that it has. -/
def followedBy (s k : ParserState) : ParserState :=
  ⟨s.lexemes ++ k.lexemes, k.ending, s.lastStop⟩

/-- A token of some kind comes next, where the end of the text counts as one. -/
def Faces (s : ParserState) (F : Token → Prop) : Prop :=
  ∃ x, s.lookahead? = some x ∧ F x.token

/-- A text has been read so far without a lexical error after it, and none of its lexemes is the
end of a text. -/
structure Proper (s : ParserState) : Prop where
  token_ne : ∀ x ∈ s.lexemes, x.token ≠ .eof
  exists_ending : ∃ offset, s.ending = .eof offset

theorem lookahead?_of_cons (hs : s.lexemes = x :: rest) : s.lookahead? = some x := by
  rw [lookahead?, hs]

theorem lookahead?_followedBy_of_cons (hs : s.lexemes = x :: rest) (k : ParserState) :
    (s.followedBy k).lookahead? = s.lookahead? := by
  rw [lookahead?_of_cons hs, followedBy, lookahead?, hs]
  rfl

theorem lookahead?_followedBy_of_nil (hs : s.lexemes = []) (k : ParserState) :
    (s.followedBy k).lookahead? = k.lookahead? := by
  rw [followedBy, hs]
  rfl

theorem lexemes_followedBy (hs : s.lexemes = x :: rest) (k : ParserState) :
    (s.followedBy k).lexemes = x :: (rest ++ k.lexemes) := by
  rw [followedBy, hs]
  rfl

theorem advance_followedBy (hs : s.lexemes = x :: rest) (k : ParserState) :
    (s.followedBy k).advance = s.advance.followedBy k := by
  rw [followedBy, advance, advance, hs]
  rfl

theorem faces_followedBy_of_nil {F : Token → Prop} (hs : s.lexemes = []) (hk : k.Faces F) :
    (s.followedBy k).Faces F := by
  rw [Faces, lookahead?_followedBy_of_nil hs]
  exact hk

theorem Faces.imp {F G : Token → Prop} (h : s.Faces F) (himp : ∀ t, F t → G t) : s.Faces G :=
  Exists.imp (fun _ hx => ⟨hx.1, himp _ hx.2⟩) h

theorem Faces.not_comes {F : Token → Prop} {token : Token} (h : s.Faces F) (hne : ¬ F token) :
    ¬ s.Comes token := by
  obtain ⟨x, hx, hF⟩ := h
  rw [Comes, hx, Option.map_some, beq_iff_eq, Option.some.injEq]
  rintro rfl
  exact hne hF

theorem comes_followedBy_of_cons {token : Token} (hs : s.lexemes = x :: rest) (k : ParserState) :
    (s.followedBy k).Comes token ↔ s.Comes token := by
  rw [Comes, lookahead?_followedBy_of_cons hs, Comes]

end ParserState

theorem Consumes.followedBy {s s' : ParserState} {l : List Lexeme} (h : Consumes s l s')
    (k : ParserState) : Consumes (s.followedBy k) l (s'.followedBy k) := by
  refine ⟨?_, rfl, h.lastStop_eq⟩
  rw [ParserState.followedBy, h.lexemes_eq, List.append_assoc]
  rfl

/-- What a run takes tells where it ends. -/
theorem Consumes.unique {s s₁ s₂ : ParserState} {l : List Lexeme} (h₁ : Consumes s l s₁)
    (h₂ : Consumes s l s₂) : s₁ = s₂ := by
  obtain ⟨lexemes₁, ending₁, stop₁⟩ := s₁
  obtain ⟨lexemes₂, ending₂, stop₂⟩ := s₂
  obtain rfl : lexemes₁ = lexemes₂ :=
    List.append_cancel_left (h₁.lexemes_eq.symm.trans h₂.lexemes_eq)
  obtain rfl : ending₁ = ending₂ := h₁.ending_eq.trans h₂.ending_eq.symm
  obtain rfl : stop₁ = stop₂ := h₁.lastStop_eq.trans h₂.lastStop_eq.symm
  rfl

theorem Consumes.eq_nil {s s' : ParserState} {l : List Lexeme} (h : Consumes s l s')
    (hs : s.lexemes = []) : s'.lexemes = [] :=
  (List.append_eq_nil_iff.1 (h.lexemes_eq.symm.trans hs)).2

namespace Parse

variable {α β : Type} {s s' : ParserState} {F G : Token → Prop} {room : Prop}

/-! ### What finishes a step -/

/-- Some tokens finish a step of which nothing has been read yet, where a token of some kind
comes next. -/
def Finishes (fillers : List Filler) (F : Token → Prop) (p : Parse α) : Prop :=
  ∀ ⦃s s' : ParserState⦄ ⦃l : List Lexeme⦄, Consumes s l s' →
    l.map (·.token) = fillers.map Filler.token → s'.Faces F → ∃ a, p s = .ok a s'

/-- Some tokens mend a text that has ended too early, where a token of some kind comes next. -/
def Mends (F : Token → Prop) (p : Parse α) (s : ParserState) : Prop :=
  ∃ fillers : List Filler, ∀ ⦃k s' : ParserState⦄ ⦃l : List Lexeme⦄,
    Consumes (s.followedBy k) (s.lexemes ++ l) s' → l.map (·.token) = fillers.map Filler.token →
    s'.Faces F → ∃ a, p (s.followedBy k) = .ok a s'

/-- What comes after a step is of a kind: the first of the tokens that finish the next step, or
what comes after these if there are none. -/
def Leads (F : Token → Prop) : List Filler → (Token → Prop) → Prop
  | [], G => ∀ t, G t → F t
  | filler :: _, _ => F filler.token

theorem Leads.faces {fillers : List Filler} {l : List Lexeme} (h : Leads F fillers G)
    (hl : Consumes s l s') (hfillers : l.map (·.token) = fillers.map Filler.token)
    (hs' : s'.Faces G) : s.Faces F := by
  cases fillers with
  | nil =>
    obtain rfl := List.map_eq_nil_iff.1 hfillers
    obtain rfl := hl.eq_of_nil
    exact hs'.imp h
  | cons filler fillers =>
    obtain ⟨span, l, rfl, -⟩ := exists_of_map_cons hfillers
    exact ⟨_, hl.lookahead_eq, h⟩

namespace Finishes

variable {fillers more : List Filler} {p : Parse α} {f : α → Parse β}

theorem pure (a : α) : Finishes [] F (Pure.pure a : Parse α) := by
  intro s s' l hl hfillers _
  obtain rfl := List.map_eq_nil_iff.1 hfillers
  obtain rfl := hl.eq_of_nil
  exact ⟨a, rfl⟩

theorem bind (h : Finishes fillers F p) (hf : ∀ a, Finishes more G (f a))
    (hlead : Leads F more G) : Finishes (fillers ++ more) G (p >>= f) := by
  intro s s' l hl hfillers hs'
  rw [List.map_append] at hfillers
  obtain ⟨l₁, l₂, rfl, h₁, h₂⟩ := List.map_eq_append_iff.1 hfillers
  obtain ⟨s₁, hl₁, hl₂⟩ := hl.split
  obtain ⟨a, ha⟩ := h hl₁ h₁ (hlead.faces hl₂ h₂ hs')
  rw [bind_ok ha]
  exact hf a hl₂ h₂ hs'

end Finishes

/-! ### Going on -/

/-- A parser needs a lexeme: it gives nothing where there is none. -/
def NeedsLexeme (p : Parse α) : Prop :=
  ∀ ⦃s a s'⦄, s.lexemes = [] → p s ≠ .ok a s'

theorem NeedsLexeme.bind {p : Parse α} (h : NeedsLexeme p) (f : α → Parse β) :
    NeedsLexeme (p >>= f) := by
  intro s b s' hs hb
  obtain ⟨a, s₁, ha, -⟩ := bind_eq_ok_iff.1 hb
  exact h hs ha

/-- **A parser goes on with what another has read.** What the one gives, the other gives as well,
with more lexemes after it too, unless the next one goes on with what has been read. If the second
one has room for another level, it also fails where the first one does, except for the nesting: with
a lexeme in view it fails whatever comes after, and at the end of the text there are tokens that
mend it. -/
structure Resumes (room : Prop) (F : Token → Prop) (p q : Parse α) (s : ParserState) : Prop where
  consumes : ∃ l, Consumes s l (endState (p s))
  same : ∀ ⦃a s'⦄, p s = .ok a s' → q s = .ok a s'
  onward : ∀ ⦃a s'⦄, p s = .ok a s' → ∀ k : ParserState, (s'.lexemes = [] → k.Faces F) →
    q (s.followedBy k) = .ok a (s'.followedBy k)
  stuck : room → ∀ ⦃error s'⦄, p s = .error error s' → s'.Proper →
    error.cause ≠ .nestingTooDeep → q s = .error error s' ∧
      (s'.lexemes ≠ [] ∧ error.cause ≠ .unexpectedEnd ∧
          (∀ k : ParserState, q (s.followedBy k) = .error error (s'.followedBy k)) ∨
        error.cause = .unexpectedEnd ∧ Mends F q s)

namespace Resumes

variable {fillers : List Filler} {p q p' q' : Parse α} {f g : α → Parse β}

theorem exists_consumes {a : α} (h : Resumes room F p q s) (ha : p s = .ok a s') :
    ∃ l, Consumes s l s' := by
  have hl := h.consumes
  rw [ha] at hl
  exact hl

theorem mono (h : Resumes room F p q s) (hFG : ∀ t, G t → F t) : Resumes room G p q s where
  consumes := h.consumes
  same := h.same
  onward a s' ha k hk := h.onward ha k fun hs' => (hk hs').imp hFG
  stuck hroom error s' herror hproper hdeep := by
    obtain ⟨hq, hfinal | ⟨hend, fillers, hmends⟩⟩ := h.stuck hroom herror hproper hdeep
    · exact ⟨hq, .inl hfinal⟩
    · exact ⟨hq, .inr ⟨hend, fillers, fun k s₁ l hl hfillers hs₁ =>
        hmends hl hfillers (hs₁.imp hFG)⟩⟩

/-- Only what the parsers do from a state matters, and what they do from it with more to come. -/
theorem congr (h : Resumes room F p q s) (hp : p' s = p s) (hq : q' s = q s)
    (hk : ∀ k : ParserState, q' (s.followedBy k) = q (s.followedBy k)) :
    Resumes room F p' q' s := by
  refine ⟨?_, ?_, ?_, ?_⟩
  · rw [hp]
    exact h.consumes
  · rw [hp, hq]
    exact h.same
  · intro a s' ha k hs'
    rw [hk]
    exact h.onward (hp ▸ ha) k hs'
  · intro hroom error s' herror hproper hdeep
    obtain ⟨hq', hfinal | ⟨hend, fillers, hmends⟩⟩ := h.stuck hroom (hp ▸ herror) hproper hdeep
    · refine ⟨hq.trans hq', .inl ⟨hfinal.1, hfinal.2.1, fun k => ?_⟩⟩
      rw [hk]
      exact hfinal.2.2 k
    · refine ⟨hq.trans hq', .inr ⟨hend, fillers, fun k s₁ l hl hfillers hs₁ => ?_⟩⟩
      rw [hk]
      exact hmends hl hfillers hs₁

/-- **Two steps**, where the second is finished by some tokens if nothing has been read of it. -/
theorem bind (fillers : List Filler) (h : Resumes room F p q s)
    (hf : ∀ a s', p s = .ok a s' → Resumes room G (f a) (g a) s')
    (hg : room → ∀ a, Finishes fillers G (g a)) (hlead : Leads F fillers G)
    (hneeds : fillers ≠ [] → ∀ a, NeedsLexeme (f a)) :
    Resumes room G (p >>= f) (q >>= g) s := by
  -- where the first step leaves nothing, what comes after it does not go on with it
  have hopen {a : α} {b : β} {s₁ s₂ : ParserState} (ha : p s = .ok a s₁)
      (hb : f a s₁ = .ok b s₂) (k : ParserState) (hk : s₂.lexemes = [] → k.Faces G)
      (hs₁ : s₁.lexemes = []) : k.Faces F := by
    cases fillers with
    | nil =>
      obtain ⟨l, hl⟩ := (hf a s₁ ha).exists_consumes hb
      exact (hk (hl.eq_nil hs₁)).imp hlead
    | cons filler fillers => exact absurd hb (hneeds (by simp) a hs₁)
  refine ⟨?_, ?_, ?_, ?_⟩
  · cases ha : p s with
    | ok a s₁ =>
      obtain ⟨l, hl⟩ := h.exists_consumes ha
      obtain ⟨l', hl'⟩ := (hf a s₁ ha).consumes
      rw [bind_ok ha]
      exact ⟨l ++ l', hl.trans hl'⟩
    | error error s₁ =>
      have hl := h.consumes
      rw [ha] at hl
      rw [bind_error ha]
      exact hl
  · intro b s₂ hb
    obtain ⟨a, s₁, ha, hb⟩ := bind_eq_ok_iff.1 hb
    rw [bind_ok (h.same ha)]
    exact (hf a s₁ ha).same hb
  · intro b s₂ hb k hk
    obtain ⟨a, s₁, ha, hb⟩ := bind_eq_ok_iff.1 hb
    rw [bind_ok (h.onward ha k (hopen ha hb k hk))]
    exact (hf a s₁ ha).onward hb k hk
  · intro hroom error s₂ herror hproper hdeep
    cases ha : p s with
    | error error' s₁ =>
      rw [bind_error ha] at herror
      cases herror
      obtain ⟨hq, ⟨hleft, hcause, hfinal⟩ | ⟨hend, before, hmends⟩⟩ :=
        h.stuck hroom ha hproper hdeep
      · exact ⟨bind_error hq, .inl ⟨hleft, hcause, fun k => bind_error (hfinal k)⟩⟩
      · -- after the tokens that mend the first step come those that finish the second
        refine ⟨bind_error hq, .inr ⟨hend, before ++ fillers, fun k s₃ l hl hfillers hs₃ => ?_⟩⟩
        rw [List.map_append] at hfillers
        obtain ⟨l₁, l₂, rfl, h₁, h₂⟩ := List.map_eq_append_iff.1 hfillers
        rw [← List.append_assoc] at hl
        obtain ⟨s₁, hl₁, hl₂⟩ := hl.split
        obtain ⟨a, ha⟩ := hmends hl₁ h₁ (hlead.faces hl₂ h₂ hs₃)
        rw [bind_ok ha]
        exact hg hroom a hl₂ h₂ hs₃
    | ok a s₁ =>
      rw [bind_ok ha] at herror
      obtain ⟨l₀, hl₀⟩ := h.exists_consumes ha
      obtain ⟨l₁, hl₁⟩ := (hf a s₁ ha).consumes
      rw [herror] at hl₁
      obtain ⟨hq, hstuck⟩ := (hf a s₁ ha).stuck hroom herror hproper hdeep
      refine ⟨(bind_ok (h.same ha)).trans hq, ?_⟩
      rcases hstuck with ⟨hleft, hcause, hfinal⟩ | ⟨hend, mending, hmends⟩
      · -- a lexeme is in view, so the first step has not come to the end of the text
        have hs₁ : s₁.lexemes ≠ [] := fun hs₁ => hleft (hl₁.eq_nil hs₁)
        refine .inl ⟨hleft, hcause, fun k => ?_⟩
        rw [bind_ok (h.onward ha k fun hs => absurd hs hs₁)]
        exact hfinal k
      · by_cases hs₁ : s₁.lexemes = []
        · -- nothing has been read of the second step
          refine .inr ⟨hend, fillers, fun k s₃ l hl hfillers hs₃ => ?_⟩
          have hl₀' := hl₀.lexemes_eq
          rw [hs₁, List.append_nil] at hl₀'
          rw [hl₀'] at hl
          obtain ⟨s₁', hfirst, hsecond⟩ := hl.split
          obtain rfl := hfirst.unique (hl₀.followedBy k)
          have hk : k.Faces F := by
            have hfaces := hlead.faces hsecond hfillers hs₃
            rw [ParserState.Faces, ParserState.lookahead?_followedBy_of_nil hs₁] at hfaces
            exact hfaces
          rw [bind_ok (h.onward ha k fun _ => hk)]
          exact hg hroom a hsecond hfillers hs₃
        · refine .inr ⟨hend, mending, fun k s₃ l hl hfillers hs₃ => ?_⟩
          rw [hl₀.lexemes_eq, List.append_assoc] at hl
          obtain ⟨s₁', hfirst, hsecond⟩ := hl.split
          obtain rfl := hfirst.unique (hl₀.followedBy k)
          rw [bind_ok (h.onward ha k fun hs => absurd hs hs₁)]
          exact hmends hsecond hfillers hs₃

/-- A step that neither fails nor takes anything. -/
theorem of_ok {a : α} (hp : p s = .ok a s) (hq : q s = .ok a s)
    (hk : ∀ k : ParserState, (s.lexemes = [] → k.Faces F) →
      q (s.followedBy k) = .ok a (s.followedBy k)) : Resumes room F p q s where
  consumes := ⟨[], by rw [hp]; exact .refl s⟩
  same b s' hb := by
    cases hp.symm.trans hb
    exact hq
  onward b s' hb k hs' := by
    cases hp.symm.trans hb
    exact hk k hs'
  stuck _ error s' herror := by cases hp.symm.trans herror

theorem pure (a : α) : Resumes room F (Pure.pure a) (Pure.pure a) s :=
  .of_ok rfl rfl fun _ _ => rfl

/-- An error at a lexeme stays, unless it is about the end of the text. -/
theorem throw {error : ParseError} (hs : s.lexemes ≠ []) (hcause : error.cause ≠ .unexpectedEnd) :
    Resumes room F (MonadExcept.throw error : Parse α) (MonadExcept.throw error) s where
  consumes := ⟨[], .refl s⟩
  same := by rintro a s' ⟨⟩
  onward := by rintro a s' ⟨⟩
  stuck := by
    rintro _ error s' ⟨⟩ _ _
    exact ⟨rfl, .inl ⟨hs, hcause, fun _ => rfl⟩⟩

/-- A parser without any levels left fails for the nesting. -/
theorem failTooDeep (q : Parse α) : Resumes room F (Parse.failTooDeep : Parse α) q s where
  consumes := ⟨[], .refl s⟩
  same := by rintro a s' ⟨⟩
  onward := by rintro a s' ⟨⟩
  stuck := by
    rintro _ error s' ⟨⟩ _ hdeep
    refine absurd ?_ hdeep
    rw [ParserState.depthError]
    split <;> rfl

/-- At the end of the text a step that needs a lexeme can be finished from scratch. -/
theorem of_nil (hs : s.lexemes = []) (h : Resumes room F p q s) (hneeds : NeedsLexeme p)
    (hp : p' s = p s) (hq : q' s = q s) (hfinishes : room → Finishes fillers G q') :
    Resumes room G p' q' s := by
  refine ⟨?_, ?_, ?_, ?_⟩
  · rw [hp]
    exact h.consumes
  · intro a s' ha
    exact absurd (hp ▸ ha) (hneeds hs)
  · intro a s' ha
    exact absurd (hp ▸ ha) (hneeds hs)
  · intro hroom error s' herror hproper hdeep
    rw [hp] at herror
    obtain ⟨hq', ⟨hleft, -⟩ | ⟨hend, -⟩⟩ := h.stuck hroom herror hproper hdeep
    · obtain ⟨l, hl⟩ := h.consumes
      rw [herror] at hl
      exact absurd (hl.eq_nil hs) hleft
    · refine ⟨hq.trans hq', .inr ⟨hend, fillers, fun k s₁ l hl hfillers hs₁ => ?_⟩⟩
      rw [hs] at hl
      exact hfinishes hroom hl hfillers hs₁

/-- A step that fails at the end of the text can be finished from scratch. -/
theorem atEnd (hs : s.lexemes = []) (hp : p s = .error s.endError s)
    (hq : q s = .error s.endError s) (hfinishes : room → Finishes fillers F q) :
    Resumes room F p q s where
  consumes := ⟨[], by rw [hp]; exact .refl s⟩
  same a s' ha := by cases hp.symm.trans ha
  onward a s' ha := by cases hp.symm.trans ha
  stuck hroom error s' herror hproper _ := by
    cases hp.symm.trans herror
    obtain ⟨offset, hending⟩ := hproper.exists_ending
    refine ⟨hq, .inr ⟨?_, fillers, fun k s₁ l hl hfillers hs₁ => ?_⟩⟩
    · rw [ParserState.endError, hending]
    · rw [hs] at hl
      exact hfinishes hroom hl hfillers hs₁

/-- The next lexeme is taken with more to come, too. -/
theorem advance {f g : Unit → Parse α} {x : Lexeme} {rest : List Lexeme}
    (hs : s.lexemes = x :: rest) (h : Resumes room F (f ()) (g ()) s.advance) :
    Resumes room F (Parse.advance >>= f) (Parse.advance >>= g) s := by
  have hstep := Consumes.advance hs
  have hk (k : ParserState) : (Parse.advance >>= g) (s.followedBy k) =
      g () (s.advance.followedBy k) := by
    rw [← ParserState.advance_followedBy hs]
    rfl
  refine ⟨?_, h.same, fun a s' ha k hs' => ?_, fun hroom error s' herror hproper hdeep => ?_⟩
  · obtain ⟨l, hl⟩ := h.consumes
    exact ⟨x :: l, hstep.cons hl⟩
  · rw [hk]
    exact h.onward ha k hs'
  · -- the first parser is stuck behind the lexeme, for good or for want of more
    obtain ⟨hq, ⟨hleft, hcause, hfinal⟩ | ⟨hend, fillers, hmends⟩⟩ :=
      h.stuck hroom herror hproper hdeep
    · refine ⟨hq, .inl ⟨hleft, hcause, fun k => ?_⟩⟩
      rw [hk]
      exact hfinal k
    · refine ⟨hq, .inr ⟨hend, fillers, fun k s₁ l hl hfillers hs₁ => ?_⟩⟩
      rw [hstep.lexemes_eq, List.append_assoc] at hl
      obtain ⟨s₂, hfirst, hsecond⟩ := hl.split
      obtain rfl := hfirst.unique (hstep.followedBy k)
      rw [hk]
      exact hmends hsecond hfillers hs₁

/-- Choosing by the token that comes next, where a lexeme does. -/
theorem comes {token : Token} {f g : Bool → Parse α} {x : Lexeme} {rest : List Lexeme}
    (hs : s.lexemes = x :: rest) (hyes : s.Comes token → Resumes room F (f true) (g true) s)
    (hno : ¬ s.Comes token → Resumes room F (f false) (g false) s) :
    Resumes room F (Parse.comes token >>= f) (Parse.comes token >>= g) s := by
  by_cases hcomes : s.Comes token
  · refine (hyes hcomes).congr ?_ ?_ fun k => ?_
    · exact bind_ok (comes_of_comes hcomes)
    · exact bind_ok (comes_of_comes hcomes)
    · exact bind_ok (comes_of_comes ((ParserState.comes_followedBy_of_cons hs k).2 hcomes))
  · refine (hno hcomes).congr ?_ ?_ fun k => ?_
    · exact bind_ok (comes_of_not_comes hcomes)
    · exact bind_ok (comes_of_not_comes hcomes)
    · exact bind_ok (comes_of_not_comes
        (mt (ParserState.comes_followedBy_of_cons hs k).1 hcomes))

end Resumes

/-! ### Pieces of a parser -/

/-- A step that goes on from wherever it starts, and is finished by some tokens. -/
structure Piece (room : Prop) (fillers : List Filler) (F : Token → Prop) (p q : Parse α) :
    Prop where
  resumes : ∀ s, Resumes room F p q s
  finishes : room → Finishes fillers F q
  needs : fillers ≠ [] → NeedsLexeme p

namespace Piece

variable {fillers more : List Filler} {p q : Parse α} {f g : α → Parse β}

theorem pure (a : α) : Piece room [] F (Pure.pure a : Parse α) (Pure.pure a) where
  resumes _ := .pure a
  finishes _ := .pure a
  needs h := absurd rfl h

/-- A step, and then a piece. -/
theorem after (hf : ∀ a, Piece room more G (f a) (g a)) (h : Resumes room F p q s)
    (hlead : Leads F more G) : Resumes room G (p >>= f) (q >>= g) s :=
  h.bind _ (fun a _ _ => (hf a).resumes _) (fun hroom a => (hf a).finishes hroom) hlead
    fun hmore a => (hf a).needs hmore

theorem bind (h : Piece room fillers F p q) (hf : ∀ a, Piece room more G (f a) (g a))
    (hlead : Leads F more G) : Piece room (fillers ++ more) G (p >>= f) (q >>= g) where
  resumes s := after hf (h.resumes s) hlead
  finishes hroom := (h.finishes hroom).bind (fun a => (hf a).finishes hroom) hlead
  needs hne := by
    intro s b s₂ hs hb
    obtain ⟨a, s₁, ha, hb⟩ := bind_eq_ok_iff.1 hb
    by_cases hfillers : fillers = []
    · subst hfillers
      obtain ⟨l, hl⟩ := (h.resumes s).exists_consumes ha
      exact (hf a).needs hne (hl.eq_nil hs) hb
    · exact h.needs hfillers hs ha

/-- A step that anything may come after, and then another one. -/
theorem andThen (h : Piece room fillers (fun _ => True) p q)
    (hf : ∀ a, Piece room more G (f a) (g a)) :
    Piece room (fillers ++ more) G (p >>= f) (q >>= g) := by
  refine h.bind hf ?_
  cases more <;> simp [Leads]

end Piece

end Parse

end Script

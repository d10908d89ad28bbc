import Script.Eval
import Script.Proofs.Sequence
import Script.Proofs.Store.Boundaries
import Script.Proofs.Store.Collapse

/-!
# Evaluation up to empty blocks

Evaluation does not see the empty blocks that a store could do without. In a store and in one that
it collapses into, an expression comes to the same value or the same error, and the stores after it
collapse again, every scope that there was becoming what it did. Expressions may be evaluated in a
block that is taken out, for they bind nothing there; nodes are evaluated in scopes that stay.

* `Eval.Matches`: results that are the same up to empty blocks;
* `Eval.matches_expression`, `Eval.matches_node`: trees, if calls do not see empty blocks;
* `Eval.matches_callWithin`: calls do not, by induction on how many may still become active.
-/

namespace Script

namespace Eval

open Store (Collapse)

variable {α β : Type} {s t s' t' : Store}

/-- **Two results match** if they are the same value or the same error, and the first store still
collapses into the second. -/
inductive Matches (c : Collapse s t) : EStateM.Result RuntimeError Store α →
    EStateM.Result RuntimeError Store α → Prop
  | ok (a : α) {s' t' : Store} (c' : Collapse s' t') (h : c.Extends c') :
      Matches c (.ok a s') (.ok a t')
  | error (error : RuntimeError) {s' t' : Store} (c' : Collapse s' t') (h : c.Extends c') :
      Matches c (.error error s') (.error error t')

/-! ### Single steps -/

section Steps

variable {c : Collapse s t} {r r' : Ref .scope}

theorem Matches.of_extends {c' : Collapse s' t'} (h : c.Extends c')
    {first second : EStateM.Result RuntimeError Store α} (hmatches : Matches c' first second) :
    Matches c first second := by
  cases hmatches with
  | ok a c'' h' => exact .ok a c'' (h.trans h')
  | error error c'' h' => exact .error error c'' (h.trans h')

/-- Matching goes through one step after another. -/
theorem Matches.bind {x y : Eval α} {f g : α → Eval β} (h : Matches c (x s) (y t))
    (hf : ∀ a {s' t' : Store} (c' : Collapse s' t'), c.Extends c' →
      Matches c' (f a s') (g a t')) : Matches c ((x >>= f) s) ((y >>= g) t) := by
  generalize hx : x s = first at h
  generalize hy : y t = second at h
  cases h with
  | ok a c' hext =>
    rw [bind_ok hx, bind_ok hy]
    exact .of_extends hext (hf a c' hext)
  | error error c' hext =>
    rw [bind_error hx, bind_error hy]
    exact .error error c' hext

theorem matches_pure (c : Collapse s t) (a : α) :
    Matches c ((pure a : Eval α) s) ((pure a : Eval α) t) :=
  .ok a c (.refl c)

theorem matches_fail (c : Collapse s t) (cause : RuntimeCause) (span : Span) :
    Matches c ((fail cause span : Eval α) s) ((fail cause span : Eval α) t) :=
  .error _ c (.refl c)

theorem matches_lift (c : Collapse s t) (span : Span) (result : Except RuntimeCause α) :
    Matches c (lift span result s) (lift span result t) := by
  cases result with
  | ok a => exact matches_pure c a
  | error cause => exact matches_fail c cause span

theorem matches_get_bind {f g : Store → Eval α} (h : Matches c (f s s) (g t t)) :
    Matches c ((get >>= f) s) ((get >>= g) t) :=
  h

theorem matches_modify {f g : Store → Store} (h : ∃ c' : Collapse (f s) (g t), c.Extends c') :
    Matches c ((modify f : Eval Unit) s) ((modify g : Eval Unit) t) := by
  obtain ⟨c', hext⟩ := h
  exact .ok () c' hext

theorem matches_addArray (c : Collapse s t) (elements : List Value) :
    Matches c ((modifyGet (·.addArray elements) : Eval Value) s)
      ((modifyGet (·.addArray elements) : Eval Value) t) := by
  have hvalue : (t.addArray elements).1 = (s.addArray elements).1 := by
    rw [Store.addArray, Store.addArray, c.arrays_eq]
  have harrays : (t.addArray elements).2.arrays = (s.addArray elements).2.arrays := by
    rw [Store.addArray, Store.addArray, c.arrays_eq]
  show Matches c (.ok _ (s.addArray elements).2)
    (.ok (t.addArray elements).1 (t.addArray elements).2)
  rw [hvalue]
  exact .ok _ (c.ofContents rfl rfl rfl rfl harrays c.maps_eq) (c.extends_ofContents ..)

theorem matches_addMap (c : Collapse s t) (table : Table) :
    Matches c ((modifyGet (·.addMap table) : Eval Value) s)
      ((modifyGet (·.addMap table) : Eval Value) t) := by
  have hvalue : (t.addMap table).1 = (s.addMap table).1 := by
    rw [Store.addMap, Store.addMap, c.maps_eq]
  have hmaps : (t.addMap table).2.maps = (s.addMap table).2.maps := by
    rw [Store.addMap, Store.addMap, c.maps_eq]
  show Matches c (.ok _ (s.addMap table).2) (.ok (t.addMap table).1 (t.addMap table).2)
  rw [hvalue]
  exact .ok _ (c.ofContents rfl rfl rfl rfl c.arrays_eq hmaps) (c.extends_ofContents ..)

/-- A function is made in a scope and in what the scope becomes. -/
theorem matches_addClosure (hr : c.Sends r r') (parameters : List String) (body : Block) :
    Matches c ((modifyGet (·.addClosure ⟨parameters, body, r⟩) : Eval Value) s)
      ((modifyGet (·.addClosure ⟨parameters, body, r'⟩) : Eval Value) t) := by
  obtain ⟨hscope, rfl⟩ := hr
  have hvalue : (t.addClosure ⟨parameters, body, c.image r⟩).1 =
      (s.addClosure ⟨parameters, body, r⟩).1 := by
    rw [Store.addClosure, Store.addClosure, c.fresh_closures]
  show Matches c (.ok _ (s.addClosure ⟨parameters, body, r⟩).2)
    (.ok (t.addClosure ⟨parameters, body, c.image r⟩).1
      (t.addClosure ⟨parameters, body, c.image r⟩).2)
  rw [hvalue]
  exact .ok _ (c.addClosure hscope) (c.extends_addClosure hscope)

theorem matches_resolve (hr : c.Sends r r') (ident : Ident) :
    Matches c (resolve r ident s) (resolve r' ident t) := by
  obtain ⟨hscope, rfl⟩ := hr
  refine matches_get_bind ?_
  rw [c.lookup?_image hscope]
  cases s.lookup? r ident.name with
  | some value => exact matches_pure c value
  | none =>
    cases Builtin.ofName? ident.name with
    | some b => exact matches_pure c _
    | none => exact matches_fail c _ _

theorem matches_assignName (hr : c.Sends r r') (ident : Ident) (value : Value) :
    Matches c (assignName r ident value s) (assignName r' ident value t) := by
  obtain ⟨hscope, rfl⟩ := hr
  refine matches_get_bind ?_
  rw [c.owner?_image r hscope]
  cases howner : s.owner? r ident.name with
  | none => exact matches_fail c _ _
  | some owner =>
    obtain ⟨hscope', hkept⟩ := c.kept_of_owner? hscope howner
    exact matches_modify (c.exists_define ⟨⟨hscope', rfl⟩, hkept⟩ ident.name value)

theorem matches_write (c : Collapse s t) (place : Place) (value : Value) :
    Matches c ((modify (·.write place value) : Eval Unit) s)
      ((modify (·.write place value) : Eval Unit) t) := by
  refine matches_modify ?_
  cases place with
  | element ref position =>
    have harrays :
        (t.setElement ref position value).arrays = (s.setElement ref position value).arrays := by
      rw [Store.setElement, Store.setElement, c.arrays_eq]
    exact ⟨c.ofContents rfl rfl rfl rfl harrays c.maps_eq, c.extends_ofContents ..⟩
  | entry ref key =>
    have hmaps : (t.write (.entry ref key) value).maps = (s.write (.entry ref key) value).maps := by
      simp only [Store.write, Store.modifyTable, c.maps_eq]
    exact ⟨c.ofContents rfl rfl rfl rfl c.arrays_eq hmaps, c.extends_ofContents ..⟩

theorem matches_assignElement (c : Collapse s t) (target key value : Value) (span : Span) :
    Matches c (assignElement target key value span s) (assignElement target key value span t) := by
  refine matches_get_bind ?_
  rw [c.place_eq]
  refine (matches_lift c span _).bind fun place _ _ c' _ => ?_
  exact matches_write c' place value

theorem matches_callBuiltin (c : Collapse s t) (b : Builtin) (arguments : List Value)
    (span : Span) :
    Matches c (callBuiltin b arguments span s) (callBuiltin b arguments span t) := by
  refine matches_get_bind ?_
  rw [c.result_eq]
  refine (matches_lift c span _).bind fun result _ _ c' _ => ?_
  cases result with
  | value value => exact matches_pure c' value
  | newArray elements => exact matches_addArray c' elements

theorem matches_insertPair (c : Collapse s t) (table : Table) (key value : Value) (span : Span) :
    Matches c (insertPair table key value span s) (insertPair table key value span t) := by
  rw [insertPair]
  cases table.insert key value with
  | ok inserted => exact matches_pure c inserted.2
  | error refusal => exact matches_fail c _ _

theorem matches_takeReturn (hr : c.Sends r r') :
    Matches c (takeReturn r s) (takeReturn r' t) := by
  obtain ⟨c', hext⟩ := c.exists_putReturn hr none
  obtain ⟨hscope, rfl⟩ := hr
  rw [Store.takeReturn_eq, Store.takeReturn_eq, c.pendingReturn?_image hscope]
  exact .ok _ c' hext

/-- A new scope is made in both stores, and evaluation goes on there. -/
theorem matches_inner_bind (hr : c.Sends r r') (kind : ScopeKind) {f g : Ref .scope → Eval α}
    (hf : ∀ {s' t' : Store} (c' : Collapse s' t') (q q' : Ref .scope), c.Extends c' →
      c'.Keeps q q' → Matches c' (f q s') (g q' t')) :
    Matches c ((inner kind r >>= f) s) ((inner kind r' >>= g) t) := by
  obtain ⟨hscope, rfl⟩ := hr
  have hext := c.extends_addScope kind hscope
  exact .of_extends hext (hf (c.addScope kind hscope) _ _ hext (c.keeps_addScope kind hscope))

/-- A block is made in the first store, and evaluation goes on there; in the second it goes on
in the scope around. -/
theorem matches_inner_bind_left (hr : c.Sends r r') {f : Ref .scope → Eval α} {y : Eval α}
    (hf : ∀ {s' : Store} (c' : Collapse s' t) (q : Ref .scope), c.Extends c' →
      c'.Sends q r' → Matches c' (f q s') (y t)) :
    Matches c ((inner .block r >>= f) s) (y t) := by
  obtain ⟨hscope, rfl⟩ := hr
  have hext := c.extends_addBlock hscope
  exact .of_extends hext (hf (c.addBlock hscope) _ hext (c.sends_addBlock hscope))

end Steps

/-! ### Trees -/

/-- Calls do not see empty blocks. -/
def SeesNoBlocks (call : Caller) : Prop :=
  ∀ {s t : Store} (c : Collapse s t) (ref : Ref .closure) (arguments : List Value) (span : Span),
    Matches c (call ref arguments span s) (call ref arguments span t)

section Trees

variable {call : Caller} {r r' : Ref .scope}

theorem matches_callValue (hcall : SeesNoBlocks call) (c : Collapse s t) (function : Value)
    (arguments : List Value) (span callee : Span) :
    Matches c (callValue call function arguments span callee s)
      (callValue call function arguments span callee t) := by
  cases function with
  | function ref => exact hcall c ref arguments span
  | builtin b => exact matches_callBuiltin c b arguments span
  | _ => exact matches_fail c _ _

mutual

/-- **Expressions do not see empty blocks**, not even one that they are evaluated in. -/
theorem matches_expression (hcall : SeesNoBlocks call) : ∀ (e : Expr) {s t : Store}
    (c : Collapse s t), c.Sends r r' → Matches c (expression call r e s) (expression call r' e t)
  | .name ident, s, t, c, hr => by
    rw [expression, expression]
    exact matches_resolve hr ident
  | .integer value _, s, t, c, _ => by
    rw [expression, expression]
    exact matches_pure c _
  | .boolean value _, s, t, c, _ => by
    rw [expression, expression]
    exact matches_pure c _
  | .string value _, s, t, c, _ => by
    rw [expression, expression]
    exact matches_pure c _
  | .array elements _, s, t, c, hr => by
    rw [expression, expression]
    refine (matches_expressions hcall elements c hr).bind fun values _ _ c' _ => ?_
    exact matches_addArray c' values
  | .map entries _, s, t, c, hr => by
    rw [expression, expression]
    refine (matches_pairs hcall entries ∅ c hr).bind fun table _ _ c' _ => ?_
    exact matches_addMap c' table
  | .unary op operand span, s, t, c, hr => by
    rw [expression, expression]
    refine (matches_expression hcall operand c hr).bind fun value _ _ c' _ => ?_
    exact matches_lift c' span _
  | .binary op left right span, s, t, c, hr => by
    rw [expression, expression]
    refine (matches_expression hcall left c hr).bind fun a _ _ c₁ h₁ => ?_
    refine (matches_expression hcall right c₁ (h₁.sends hr)).bind fun b _ _ c₂ _ => ?_
    exact matches_lift c₂ span _
  | .assign target value span, s, t, c, hr => by
    -- the value comes first, whatever it is assigned to
    cases target with
    | name ident =>
      rw [expression, expression]
      refine (matches_expression hcall value c hr).bind fun v _ _ c₁ h₁ => ?_
      refine (matches_assignName (h₁.sends hr) ident v).bind fun _ _ _ c₂ _ => ?_
      exact matches_pure c₂ v
    | index target key span =>
      rw [expression, expression]
      refine (matches_expression hcall value c hr).bind fun v _ _ c₁ h₁ => ?_
      have hr₁ := h₁.sends hr
      refine (matches_expression hcall target c₁ hr₁).bind fun target _ _ c₂ h₂ => ?_
      refine (matches_expression hcall key c₂ (h₂.sends hr₁)).bind fun k _ _ c₃ _ => ?_
      refine (matches_assignElement c₃ target k v span).bind fun _ _ _ c₄ _ => ?_
      exact matches_pure c₄ v
    | _ =>
      simp only [expression]
      refine (matches_expression hcall value c hr).bind fun _ _ _ c₁ _ => ?_
      exact matches_fail c₁ _ _
  | .index target key span, s, t, c, hr => by
    rw [expression, expression]
    refine (matches_expression hcall target c hr).bind fun target _ _ c₁ h₁ => ?_
    refine (matches_expression hcall key c₁ (h₁.sends hr)).bind fun k _ _ c₂ _ => ?_
    refine matches_get_bind ?_
    rw [c₂.index_eq]
    exact matches_lift c₂ span _
  | .function parameters body _, s, t, c, hr => by
    rw [expression, expression]
    exact matches_addClosure hr _ body
  | .call callee arguments span, s, t, c, hr => by
    -- the callee and the arguments are in the tree; the body is not, and is left to `hcall`
    rw [expression, expression]
    refine (matches_expression hcall callee c hr).bind fun function _ _ c₁ h₁ => ?_
    refine (matches_expressions hcall arguments c₁ (h₁.sends hr)).bind fun values _ _ c₂ _ => ?_
    exact matches_callValue hcall c₂ function values span callee.span
termination_by structural e => e

theorem matches_expressions (hcall : SeesNoBlocks call) : ∀ (es : List Expr) {s t : Store}
    (c : Collapse s t), c.Sends r r' →
      Matches c (expressions call r es s) (expressions call r' es t)
  | [], s, t, c, _ => by
    rw [expressions, expressions]
    exact matches_pure c _
  | e :: rest, s, t, c, hr => by
    rw [expressions, expressions]
    refine (matches_expression hcall e c hr).bind fun value _ _ c₁ h₁ => ?_
    refine (matches_expressions hcall rest c₁ (h₁.sends hr)).bind fun values _ _ c₂ _ => ?_
    exact matches_pure c₂ _
termination_by structural es => es

theorem matches_pairs (hcall : SeesNoBlocks call) : ∀ (entries : List (Expr × Expr))
    (table : Table) {s t : Store} (c : Collapse s t), c.Sends r r' →
      Matches c (pairs call r table entries s) (pairs call r' table entries t)
  | [], table, s, t, c, _ => by
    rw [pairs, pairs]
    exact matches_pure c table
  | (key, value) :: rest, table, s, t, c, hr => by
    rw [pairs, pairs]
    refine (matches_expression hcall key c hr).bind fun k _ _ c₁ h₁ => ?_
    have hr₁ := h₁.sends hr
    refine (matches_expression hcall value c₁ hr₁).bind fun v _ _ c₂ h₂ => ?_
    refine (matches_insertPair c₂ table k v key.span).bind fun table' _ _ c₃ h₃ => ?_
    exact matches_pairs hcall rest table' c₃ (h₃.sends (h₂.sends hr₁))
termination_by structural entries => entries

end

/-- A block is evaluated in a scope of its own, which is made in both stores and stays. -/
theorem matches_ownBlock {c : Collapse s t} (hr : c.Sends r r') {b : Block}
    (hb : ∀ {s' t' : Store} (c' : Collapse s' t') (q q' : Ref .scope), c'.Keeps q q' →
      Matches c' (block call q b s') (block call q' b t')) :
    Matches c ((do block call (← inner .block r) b; return .null : Eval Value) s)
      ((do block call (← inner .block r') b; return .null : Eval Value) t) := by
  refine matches_inner_bind hr .block fun c₁ q q' _ hq => ?_
  refine (hb c₁ q q' hq).bind fun _ _ _ c₂ _ => ?_
  exact matches_pure c₂ _

mutual

/-- **Nodes do not see empty blocks**, if they are evaluated in scopes that stay. -/
theorem matches_node (hcall : SeesNoBlocks call) {r r' : Ref .scope} : ∀ (n : Node) {s t : Store}
    (c : Collapse s t), c.Keeps r r' → Matches c (node call r n s) (node call r' n t)
  | .binding ident value _, s, t, c, hr => by
    rw [node, node]
    refine (matches_expression hcall value c hr.toSends).bind fun v _ _ c₁ h₁ => ?_
    refine (matches_modify (c₁.exists_define (h₁.keeps hr) ident.name v)).bind fun _ _ _ c₂ _ => ?_
    exact matches_pure c₂ _
  | .returning none _, s, t, c, hr => by
    rw [node, node]
    refine (matches_modify (c.exists_putReturn hr.toSends (some .null))).bind fun _ _ _ c₁ _ => ?_
    exact matches_pure c₁ _
  | .returning (some value) _, s, t, c, hr => by
    rw [node, node]
    refine (matches_expression hcall value c hr.toSends).bind fun v _ _ c₁ h₁ => ?_
    have hr₁ := h₁.sends hr.toSends
    refine (matches_modify (c₁.exists_putReturn hr₁ (some v))).bind fun _ _ _ c₂ _ => ?_
    exact matches_pure c₂ _
  | .conditional condition consequence none _, s, t, c, hr => by
    rw [node, node]
    refine (matches_expression hcall condition c hr.toSends).bind fun v _ _ c₁ h₁ => ?_
    have hr₁ := h₁.sends hr.toSends
    split
    · exact matches_ownBlock hr₁ fun c₂ _ _ hq => matches_block hcall consequence c₂ hq
    · exact matches_pure c₁ _
  | .conditional condition consequence (some alternative) _, s, t, c, hr => by
    rw [node, node]
    refine (matches_expression hcall condition c hr.toSends).bind fun v _ _ c₁ h₁ => ?_
    have hr₁ := h₁.sends hr.toSends
    -- each branch has a block of its own on both sides
    split
    · exact matches_ownBlock hr₁ fun c₂ _ _ hq => matches_block hcall consequence c₂ hq
    · exact matches_ownBlock hr₁ fun c₂ _ _ hq => matches_block hcall alternative c₂ hq
  | .expression value, s, t, c, hr => by
    rw [node, node]
    exact matches_expression hcall value c hr.toSends
termination_by structural n => n

theorem matches_nodes (hcall : SeesNoBlocks call) {r r' : Ref .scope} : ∀ (ns : List Node)
    {s t : Store} (c : Collapse s t), c.Keeps r r' →
      Matches c (nodes call r ns s) (nodes call r' ns t)
  | [], s, t, c, _ => by
    rw [nodes, nodes]
    exact matches_pure c _
  | n :: rest, s, t, c, hr => by
    rw [nodes, nodes]
    refine (matches_node hcall n c hr).bind fun _ _ _ c₁ h₁ => ?_
    -- the same return is pending in both stores, so both stop or both go on
    have hr₁ := h₁.keeps hr
    refine matches_get_bind ?_
    rw [hr₁.isReturning_eq]
    split
    · exact matches_pure c₁ _
    · exact matches_nodes hcall rest c₁ hr₁
termination_by structural ns => ns

theorem matches_block (hcall : SeesNoBlocks call) {r r' : Ref .scope} : ∀ (b : Block)
    {s t : Store} (c : Collapse s t), c.Keeps r r' →
      Matches c (block call r b s) (block call r' b t)
  | ⟨ns, _⟩, s, t, c, hr => by
    rw [block, block]
    exact matches_nodes hcall ns c hr
termination_by structural b => b

end

end Trees

/-! ### Calls -/

section Calls

variable {c : Collapse s t}

/-- A function that is found was made in a scope of the one store and is found, in the other, in
what that scope becomes. -/
theorem matches_callee_bind (ref : Ref .closure) (arguments : List Value) (span : Span)
    {f g : Closure → Eval α}
    (hf : ∀ closure, s.HasScope closure.scope →
      Matches c (f closure s) (g { closure with scope := c.image closure.scope } t)) :
    Matches c ((callee ref arguments span >>= f) s) ((callee ref arguments span >>= g) t) := by
  rw [callee, bind_assoc, bind_assoc, get_bind, get_bind, c.get?_closure]
  cases hclosure : s.closures.get? ref with
  | none => exact .error _ c (.refl c)
  | some closure =>
    rw [Option.map_some]
    dsimp only
    split
    · exact hf closure (c.wellFormed.closure_scope hclosure)
    · exact .error _ c (.refl c)

theorem exists_defines {r r' : Ref .scope} : ∀ (parameters : List (String × Value)) {s t : Store}
    (c : Collapse s t), c.Keeps r r' →
      ∃ c' : Collapse
          (parameters.foldl (fun store (name, value) => store.define r name value) s)
          (parameters.foldl (fun store (name, value) => store.define r' name value) t),
        c.Extends c'
  | [], s, t, c, _ => ⟨c, .refl c⟩
  | (name, value) :: parameters, s, t, c, hr => by
    obtain ⟨c₁, h₁⟩ := c.exists_define hr name value
    obtain ⟨c₂, h₂⟩ := exists_defines parameters c₁ (h₁.keeps hr)
    exact ⟨c₂, h₁.trans h₂⟩

/-- A body is entered in both stores, and evaluation goes on there. -/
theorem matches_enter_bind {closure : Closure} (hscope : s.HasScope closure.scope)
    (arguments : List Value) {f g : Ref .scope → Eval α}
    (hf : ∀ {s' t' : Store} (c' : Collapse s' t') (q q' : Ref .scope), c.Extends c' →
      c'.Keeps q q' → Matches c' (f q s') (g q' t')) :
    Matches c ((enter closure arguments >>= f) s)
      ((enter { closure with scope := c.image closure.scope } arguments >>= g) t) := by
  rw [enter, enter, bind_assoc, bind_assoc]
  refine matches_inner_bind ⟨hscope, rfl⟩ .function fun c₁ q q' h₁ hq => ?_
  rw [bind_assoc, bind_assoc]
  refine (matches_modify (exists_defines _ c₁ hq)).bind fun _ _ _ c₂ h₂ => ?_
  exact hf c₂ q q' (h₁.trans h₂) (h₂.keeps hq)

/-- **Calls do not see empty blocks**, however many may still become active. -/
theorem matches_callWithin : ∀ n, SeesNoBlocks (callWithin n)
  -- by induction on the calls left: the body of a call makes its own calls with one fewer
  | 0, _, _, c, ref, arguments, span => by
    rw [callWithin]
    refine matches_callee_bind ref arguments span fun closure _ => ?_
    exact matches_fail c _ _
  | n + 1, _, _, c, ref, arguments, span => by
    rw [callWithin]
    refine matches_callee_bind ref arguments span fun closure hscope => ?_
    refine matches_enter_bind hscope arguments fun c₁ q q' _ hq => ?_
    refine (matches_block (matches_callWithin n) closure.body c₁ hq).bind fun _ _ _ c₂ h₂ => ?_
    refine (matches_takeReturn (h₂.sends hq.toSends)).bind fun returned _ _ c₃ _ => ?_
    exact matches_pure c₃ _

end Calls

end Eval

end Script

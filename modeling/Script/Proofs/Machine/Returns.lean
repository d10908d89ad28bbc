import Script.Proofs.Eval.Returns
import Script.Proofs.Machine.Step

/-!
# No return is observed late

While a machine runs, a return is pending only on the way from a `return` to the call or the program
that it stops. On that way nothing is evaluated: null is handed from frame to frame, and each frame
finds the return. So at any other time nothing is pending in any scope.

That every return is found is known beforehand from the frames. Whatever may leave a return pending
for a scope has a frame right behind it that looks for one of the same boundary (`Catches`), and
this holds of the whole list of frames (`Chained`).

* `Machine.Calm`, `Machine.Returning`: nothing is pending, or one return on its way;
* `Machine.Orderly.step`, `Machine.Orderly.steps`: one of both holds during a whole run;
* `Machine.Orderly.startsQuietly`: hence nothing is evaluated where a return is pending.
-/

namespace Script

/-! ### Scopes that are held -/

theorem Frame.scope?_of_looksIn? {frame : Frame} {scope : Ref .scope}
    (h : frame.looksIn? = some scope) : frame.scope? = some scope := by
  cases frame <;> first | exact h | cases h

namespace Machine

open Eval
open Store (KeepsReturns)

/-- A return that is pending for a scope is looked for by the innermost frame, if there is any. -/
def Catches (store : Store) (scope : Ref .scope) (frames : List Frame) : Prop :=
  ∀ frame ∈ frames.head?, ∃ looked, frame.looksIn? = some looked ∧
    store.boundary looked = store.boundary scope

/-- What is held in front of some frames goes on in a scope that exists, and if it may leave a
return pending for it, this return is looked for. -/
def Held (store : Store) (scope? : Option (Ref .scope)) (mayReturn : Bool) (frames : List Frame) :
    Prop :=
  ∀ scope, scope? = some scope →
    store.HasScope scope ∧ (mayReturn = true → Catches store scope frames)

/-- All frames are held in front of those behind them. -/
def Chained (store : Store) : List Frame → Prop
  | [] => True
  | frame :: frames => Held store frame.scope? frame.mayReturn frames ∧ Chained store frames

/-- **Nothing is pending**, and every return that comes will be looked for. -/
structure Calm (m : Machine) : Prop where
  atRest : m.store.AtRest
  task : Held m.store m.task.scope? m.task.mayReturn m.frames
  frames : Chained m.store m.frames

/-- **One return is on its way**: it has been left pending in a store at rest, the innermost frame
looks for it, and gets null. -/
structure Returning (m : Machine) (s : Store) (scope : Ref .scope) (value : Value) : Prop where
  atRest : s.AtRest
  hasScope : s.HasScope scope
  task : m.task = .give .null
  store : m.store = s.setReturn scope value
  catches : Catches s scope m.frames
  frames : Chained s m.frames

/-- A machine is orderly if nothing is pending but a return on its way. -/
def Orderly (m : Machine) : Prop :=
  m.Calm ∨ ∃ s scope value, m.Returning s scope value

variable {α : Type} {s s' : Store} {frames : List Frame} {active : Nat}

/-! ### Stores that change -/

theorem catches_nil (store : Store) (scope : Ref .scope) : Catches store scope [] := by
  simp [Catches]

theorem catches_cons {scope looked : Ref .scope} {frame : Frame}
    (hlooks : frame.looksIn? = some looked) (hboundary : s.boundary looked = s.boundary scope) :
    Catches s scope (frame :: frames) := by
  intro frame' hframe
  obtain rfl := Option.some.inj hframe
  exact ⟨looked, hlooks, hboundary⟩

theorem held_none {mayReturn : Bool} : Held s none mayReturn frames := by
  simp [Held]

/-- What leaves no return pending is held where its scope exists. -/
theorem held_of_hasScope {scope : Ref .scope} (h : s.HasScope scope) :
    Held s (some scope) false frames := by
  intro scope' hscope
  obtain rfl := Option.some.inj hscope
  exact ⟨h, fun hfalse => absurd hfalse Bool.false_ne_true⟩

theorem held_of_catches {scope : Ref .scope} (h : s.HasScope scope)
    (hcatches : Catches s scope frames) (mayReturn : Bool) :
    Held s (some scope) mayReturn frames := by
  intro scope' hscope
  obtain rfl := Option.some.inj hscope
  exact ⟨h, fun _ => hcatches⟩

/-- What is held stays so if it goes on in the same scope or in none, and may not return more. -/
theorem Held.narrow {scope? scope?' : Option (Ref .scope)} {mayReturn mayReturn' : Bool}
    (h : Held s scope? mayReturn frames)
    (hscope : ∀ scope, scope?' = some scope → scope? = some scope)
    (hreturn : mayReturn' = true → mayReturn = true) : Held s scope?' mayReturn' frames := by
  intro scope hs
  obtain ⟨hhas, hcatches⟩ := h scope (hscope scope hs)
  exact ⟨hhas, fun hmay => hcatches (hreturn hmay)⟩

section Change

variable (hs : s.WellFormed) (h : s.KeepsReturns s')
include hs h

/-- As a store grows, boundaries stay the same, and so does what frames look for. -/
theorem Catches.mono {scope : Ref .scope} (hscope : s.HasScope scope) (hframes : Chained s frames)
    (hcatches : Catches s scope frames) : Catches s' scope frames := by
  cases frames with
  | nil => exact catches_nil s' scope
  | cons frame frames =>
    obtain ⟨looked, hlooks, hboundary⟩ := hcatches frame rfl
    have hlooked := (hframes.1 looked (Frame.scope?_of_looksIn? hlooks)).1
    have hgrows := h.grows.boundary_eq hs h.wellFormed
    refine catches_cons hlooks ?_
    rw [hgrows looked hlooked, hgrows scope hscope, hboundary]

theorem Held.mono {scope? : Option (Ref .scope)} {mayReturn : Bool} (hframes : Chained s frames)
    (hheld : Held s scope? mayReturn frames) : Held s' scope? mayReturn frames := by
  intro scope hscope
  obtain ⟨hhas, hcatches⟩ := hheld scope hscope
  exact ⟨h.grows.hasScope hhas, fun hreturn => (hcatches hreturn).mono hs h hhas hframes⟩

theorem Chained.mono (hframes : Chained s frames) : Chained s' frames := by
  induction frames with
  | nil => trivial
  | cons frame frames ih =>
    obtain ⟨hframe, hframes⟩ := hframes
    exact ⟨hframe.mono hs h hframes, ih hframes⟩

end Change

/-! ### Going on -/

section Step

variable (hs : s.AtRest) (hframes : Chained s frames)
include hs hframes

theorem calm_give (value : Value) : Calm ⟨.give value, frames, s, active⟩ :=
  ⟨hs, held_none, hframes⟩

theorem calm_fail (error : RuntimeError) : Calm ⟨.fail error, frames, s, active⟩ :=
  ⟨hs, held_none, hframes⟩

/-- A machine that sets a frame aside for the value of an expression. -/
theorem calm_expression {scope : Ref .scope} {e : Expr} {frame : Frame} (hscope : s.HasScope scope)
    (hframe : Held s frame.scope? frame.mayReturn frames) :
    Calm ⟨.expression scope e, frame :: frames, s, active⟩ :=
  ⟨hs, held_of_hasScope hscope, hframe, hframes⟩

/-- A return is left pending, and is on its way from now on. -/
theorem returning_setReturn {scope : Ref .scope} (hscope : s.HasScope scope)
    (hcatches : Catches s scope frames) (value : Value) :
    Returning ⟨.give .null, frames, s.setReturn scope value, active⟩ s scope value :=
  ⟨hs, hscope, rfl, rfl, hcatches, hframes⟩

/-- An evaluation that keeps the returns leaves nothing pending, whether it succeeds or fails. -/
theorem Orderly.proceed {x : Eval α} {next : α → Store → Machine} (hx : Keeps x s)
    (hnext : ∀ a s', x s = .ok a s' → s.KeepsReturns s' → s'.AtRest → Chained s' frames →
      Orderly (next a s')) : Orderly (proceed frames active next (x s)) := by
  cases hresult : x s with
  | ok a s' =>
    have hkeeps := hx.of_ok hresult
    exact hnext a s' hresult hkeeps (hkeeps.atRest hs)
      (hframes.mono hs.wellFormed hkeeps)
  | error error s' =>
    have hkeeps := hx.of_error hresult
    exact .inl (calm_fail (hkeeps.atRest hs)
      (hframes.mono hs.wellFormed hkeeps) error)

theorem Orderly.answer {x : Eval Value} (hx : Keeps x s) :
    Orderly (answer frames active (x s)) :=
  Orderly.proceed hs hframes hx fun value _ _ _ hs' hframes' => .inl (calm_give hs' hframes' value)

/-- A block has the boundary of the scope around it, so its returns are looked for as well. -/
theorem orderly_beginBlock {scope : Ref .scope} (hscope : s.HasScope scope)
    (hcatches : Catches s scope frames) (b : Block) :
    Orderly (beginBlock frames active scope b s) := by
  have hkeeps : s.KeepsReturns (s.addScope .block (some scope)).2 :=
    keeps_inner hs.wellFormed .block hscope
  have hblock : (s.addScope .block (some scope)).2.scopes.get? s.scopes.fresh =
      some ⟨.block, some scope, ∅, none⟩ := by
    rw [Store.get?_addScope, if_pos rfl]
  have hboundary := Store.boundary_of_passes hkeeps.wellFormed hblock rfl rfl
  have hcatches' := hcatches.mono hs.wellFormed hkeeps hscope hframes
  refine .inl ⟨hkeeps.atRest hs, held_of_catches ⟨_, hblock⟩ ?_ _,
    hframes.mono hs.wellFormed hkeeps⟩
  intro frame hframe
  obtain ⟨looked, hlooks, hlooked⟩ := hcatches' frame hframe
  exact ⟨looked, hlooks, hlooked.trans hboundary.symm⟩

end Step

/-! ### Steps -/

/-- What a single step evaluates keeps the returns. -/
theorem keeps_single (hs : s.AtRest) {scope? : Option (Ref .scope)} {values : List Value}
    {x : Eval Value} (hscope : ∀ scope, scope? = some scope → s.HasScope scope)
    (hx : Single scope? values x) : Keeps x s := by
  have hw := hs.wellFormed
  cases hx with
  | constant h => exact keeps_pure hw _
  | fails h span => exact keeps_fail hw _ span
  | resolve h ident => exact keeps_resolve hw _ ident
  | closure h => exact keeps_modifyGet (Store.keepsReturns_addClosure hw (hscope _ h))
  | @array elements h => exact keeps_modifyGet (Store.keepsReturns_addArray hw elements)
  | @map table h => exact keeps_modifyGet (Store.keepsReturns_addMap hw table)
  | @binding scope h name value =>
    refine (keeps_modify (Store.keepsReturns_define hw scope name value)).bind ?_
    exact fun _ s' _ hs' => keeps_pure hs'.wellFormed Value.null
  | @assignment scope h ident value =>
    refine (keeps_assignName hw scope ident value).bind ?_
    exact fun _ s' _ hs' => keeps_pure hs'.wellFormed value
  | unary op value span => exact keeps_lift hw span _
  | binary op left right span => exact keeps_lift hw span _
  | index h key span => exact keeps_get_bind (keeps_lift hw span _)
  | @builtin b arguments h span => exact keeps_callBuiltin hw b arguments span

/-- Going on with what is at hand leaves nothing pending but a return that is looked for. -/
theorem Orderly.goes (hs : s.AtRest) {front : Front} {m : Machine}
    (hheld : Held s front.scope? front.mayReturn front.rest) (hrest : Chained s front.rest)
    (hgoes : Goes front s active m) : m.Orderly := by
  have hscope (scope : Ref .scope) (h : front.scope? = some scope) : s.HasScope scope :=
    (hheld scope h).1
  cases hgoes with
  | turns htask => exact .inl ⟨hs, hheld.narrow htask.scope htask.mayReturn, hrest⟩
  | asks h hframe =>
    exact .inl (calm_expression hs hrest (hscope _ h) (hheld.narrow hframe.scope hframe.mayReturn))
  | beginsNode h hreturn =>
    obtain ⟨hhas, hcatches⟩ := hheld _ h
    -- the rest of the block catches what the node leaves, and may leave the same
    exact .inl ⟨hs, held_of_catches hhas (catches_cons rfl rfl) _,
      held_of_catches hhas (hcatches hreturn) _, hrest⟩
  | answers hx => exact Orderly.answer hs hrest (keeps_single hs hscope hx)
  | inserts key span rest h htable hvalue =>
    refine Orderly.proceed hs hrest (keeps_insertPair hs.wellFormed _ key _ span)
      fun table s' _ hkeeps hs' hrest' => .inl ⟨hs', ?_, hrest'⟩
    exact held_of_hasScope (hkeeps.grows.hasScope (hscope _ h))
  | @leavesReturn scope value h hreturn hvalue =>
    obtain ⟨hhas, hcatches⟩ := hheld scope h
    exact .inr ⟨s, scope, value, returning_setReturn hs hrest hhas (hcatches hreturn) value⟩
  | beginsBlock b h hreturn =>
    obtain ⟨hhas, hcatches⟩ := hheld _ h
    exact orderly_beginBlock hs hrest hhas (hcatches hreturn) b

/-- What is at hand is held in front of the frames behind, which are held themselves. -/
theorem Calm.held {m : Machine} {front : Front} (h : m.Calm) (hat : m.At front) :
    Held m.store front.scope? front.mayReturn front.rest ∧ Chained m.store front.rest := by
  cases hat with
  | task => exact ⟨h.task, h.frames⟩
  | frame => exact h.frames

/-- **One step while nothing is pending.** -/
theorem Calm.step {m m' : Machine} (h : m.Calm) (hstep : m.step = some m') : m'.Orderly := by
  have ⟨hs, htask, hframes⟩ := h
  cases does_of_step hstep with
  | goes hat hgoes => exact Orderly.goes hs (h.held hat).1 (h.held hat).2 hgoes
  | @assignsElement key value target span =>
    refine Orderly.answer hs hframes.2
      ((keeps_assignElement hs.wellFormed target key value span).bind ?_)
    exact fun _ s' _ hs' => keeps_pure hs'.wellFormed value
  | enters hget harity hlt henter =>
    -- the frame of the body looks for the returns of the body
    obtain ⟨hkeeps, hinner, -⟩ :=
      (ends_enter hs.wellFormed (hs.wellFormed.closure_scope hget) _).of_ok henter
    exact .inl ⟨hkeeps.atRest hs, held_of_catches hinner (catches_cons rfl rfl) _,
      held_of_hasScope hinner, hframes.mono hs.wellFormed hkeeps⟩
  | refuses => exact .inl (calm_fail hs hframes _)
  | leavesBody =>
    rw [takeReturn_of_none (Store.pendingReturn?_eq_none hs.quiet _)]
    exact .inl (calm_give hs hframes.2 _)
  | @beginsTopLevel scope =>
    exact .inl ⟨hs, held_of_catches (htask scope rfl).1 (catches_cons rfl rfl) _, htask, hframes⟩
  | @endsTopLevel value scope =>
    rw [takeReturn_of_none (Store.pendingReturn?_eq_none hs.quiet _)]
    exact .inl ⟨hs, held_of_hasScope (hframes.1 scope rfl).1, hframes.2⟩
  | drops => exact .inl (calm_fail hs hframes.2 _)

/-- **One step while a return is on its way**: the innermost frame hands it on, or takes it. -/
theorem Returning.step {m m' : Machine} {scope : Ref .scope} {value : Value}
    (h : m.Returning s scope value) (hstep : m.step = some m') : m'.Orderly := by
  obtain ⟨task, frames, store, active⟩ := m
  obtain ⟨hs, hscope, rfl, rfl, hcatches, hframes⟩ := h
  cases frames with
  | nil => cases hstep
  | cons frame frames =>
    obtain ⟨looked, hlooks, hboundary⟩ := hcatches frame rfl
    obtain ⟨hframe, hframes⟩ := hframes
    obtain ⟨hlooked, hbehind⟩ := hframe looked (Frame.scope?_of_looksIn? hlooks)
    obtain rfl := Option.some.inj hstep
    -- as seen from the frame, the return has been left for its own scope
    rw [← Store.setReturn_eq_of_boundary hboundary]
    have hnone := Store.pendingReturn?_eq_none hs.quiet looked
    have htake := takeReturn_setReturn hs.wellFormed hlooked hnone value
    have hsome := Store.pendingReturn?_setReturn hs.wellFormed hlooked value
    cases frame with
    | nodes inner rest =>
      obtain rfl := Option.some.inj hlooks
      have htrue : (s.setReturn inner value).isReturning inner = true := by
        rw [Store.isReturning, hsome]
        rfl
      unfold resume
      dsimp only
      rw [htrue, if_pos rfl]
      exact .inr ⟨s, inner, value, returning_setReturn hs hframes hlooked (hbehind rfl) value⟩
    | body _ =>
      obtain rfl := Option.some.inj hlooks
      unfold resume
      dsimp only
      rw [htake]
      exact .inl (calm_give hs hframes _)
    | topLevel _ rest =>
      obtain rfl := Option.some.inj hlooks
      unfold resume
      dsimp only
      rw [htake]
      exact .inl (calm_give hs hframes _)
    | _ => cases hlooks

theorem Orderly.step {m m' : Machine} (h : m.Orderly) (hstep : m.step = some m') : m'.Orderly := by
  rcases h with hcalm | ⟨s, scope, value, hreturning⟩
  · exact hcalm.step hstep
  · exact hreturning.step hstep

/-- **A whole run** is orderly. -/
theorem Orderly.steps {m m' : Machine} (h : m.Orderly) (hsteps : Steps m m') : m'.Orderly := by
  induction hsteps with
  | refl => exact h
  | tail _ hstep ih => exact ih.step hstep

/-! ### Where evaluation starts -/

/-- Nothing is evaluated where a return is pending: whenever a machine comes to a task in a scope,
such as an expression or a node, nothing is pending for the scope. -/
def StartsQuietly (m : Machine) : Prop :=
  ∀ m', Steps m m' → ∀ scope, m'.task.scope? = some scope → m'.store.isReturning scope = false

theorem Orderly.startsQuietly {m : Machine} (h : m.Orderly) : m.StartsQuietly := by
  intro m' hsteps scope htask
  rcases h.steps hsteps with hcalm | ⟨_, _, _, hreturning⟩
  · rw [Store.isReturning, Store.pendingReturn?_eq_none hcalm.atRest.quiet]
    rfl
  · rw [hreturning.task] at htask
    cases htask

theorem orderly_ofNode {store : Store} (hs : store.AtRest) {scope : Ref .scope}
    (hscope : store.HasScope scope) (n : Node) (active : Nat) :
    (ofNode scope n store active).Orderly :=
  .inl ⟨hs, held_of_catches hscope (catches_nil store scope) _, trivial⟩

theorem orderly_ofProgram {store : Store} (hs : store.AtRest) {scope : Ref .scope}
    (hscope : store.HasScope scope) (p : Program) (active : Nat) :
    (ofProgram scope p store active).Orderly :=
  .inl ⟨hs, held_of_hasScope hscope, trivial⟩

end Machine

end Script

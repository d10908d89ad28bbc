import Script.Proofs.Machine.Containers
import Script.Proofs.Store.Values

/-!
# A machine holds ordinary values

The value that tells of an error never comes up while a script is evaluated: an error goes through
the frames as an error, and only a host makes a value of it. So whatever a machine holds in its
task, in a frame or in its store is ordinary, and a step keeps it so, also a step that fails. The
same steps make scopes and functions inside scopes that exist, so the links of the store lead to
older scopes.

* `Machine.Proper`: a machine that holds ordinary values only;
* `Machine.properly_resolve` and the like: single evaluations;
* `Machine.Proper.step`, `Machine.Proper.steps`: one step and a whole run.
-/

namespace Script

namespace Machine

open Eval

/-- **A machine that holds ordinary values only**, and whose store is proper. -/
structure Proper (m : Machine) : Prop where
  store : m.store.Proper
  task : AllOrdinary m.task.values
  frames : ∀ frame ∈ m.frames, AllOrdinary frame.values

variable {α β : Type} {store : Store}

/-! ### Single evaluations -/

/-- An evaluation that leaves a proper store, also where it fails, and gives something with a
property. -/
def Properly (P : α → Store → Prop) : EStateM.Result RuntimeError Store α → Prop
  | .ok a after => after.Proper ∧ P a after
  | .error _ after => after.Proper

/-- It gives an ordinary value. -/
abbrev ProperlyOrdinary : EStateM.Result RuntimeError Store Value → Prop :=
  Properly fun value _ => value.Ordinary

theorem Properly.bind {P : α → Store → Prop} {Q : β → Store → Prop} {x : Eval α} {f : α → Eval β}
    (hx : Properly P (x store))
    (hf : ∀ a after, after.Proper → P a after → Properly Q (f a after)) :
    Properly Q ((x >>= f) store) := by
  cases hresult : x store with
  | error error after =>
    rw [hresult] at hx
    rw [bind_error hresult]
    exact hx
  | ok a after =>
    rw [hresult] at hx
    rw [bind_ok hresult]
    exact hf a after hx.1 hx.2

section Evaluations

variable (h : store.Proper)
include h

theorem properly_lift {P : α → Store → Prop} (span : Span) {r : Except RuntimeCause α}
    (hr : ∀ a, r = .ok a → P a store) : Properly P (lift span r store) := by
  cases r with
  | ok a => exact ⟨h, hr a rfl⟩
  | error cause => exact h

theorem properly_resolve (scope : Ref .scope) (ident : Ident) :
    ProperlyOrdinary (resolve scope ident store) := by
  rw [resolve, get_bind]
  cases hvalue : store.lookup? scope ident.name with
  | some value => exact ⟨h, h.ordinary_lookup? hvalue⟩
  | none =>
    cases Builtin.ofName? ident.name with
    | some b => exact ⟨h, by rintro ⟨⟩⟩
    | none => exact h

theorem properly_assignName (scope : Ref .scope) (ident : Ident) {value : Value}
    (hvalue : value.Ordinary) :
    Properly (fun _ _ => True) (assignName scope ident value store) := by
  rw [assignName, get_bind]
  cases store.owner? scope ident.name with
  | some owner => exact ⟨h.define owner ident.name hvalue, trivial⟩
  | none => exact h

theorem properly_assignElement (target key : Value) (span : Span) {value : Value}
    (hvalue : value.Ordinary) :
    Properly (fun _ _ => True) (assignElement target key value span store) := by
  rw [assignElement, get_bind]
  cases store.place target key with
  | error cause => exact h
  | ok place => exact ⟨h.write place hvalue, trivial⟩

theorem properly_callBuiltin (b : Builtin) {arguments : List Value} (span : Span)
    (harguments : AllOrdinary arguments) :
    ProperlyOrdinary (callBuiltin b arguments span store) := by
  rw [callBuiltin, get_bind]
  cases hresult : b.result store arguments with
  | error cause => exact h
  | ok result =>
    have hordinary := h.ordinary_result harguments hresult
    cases result with
    | value value => exact ⟨h, hordinary value List.mem_cons_self⟩
    | newArray elements => exact ⟨h.addArray hordinary, by rintro ⟨⟩⟩

theorem properly_takeReturn (scope : Ref .scope) :
    Properly (fun returned _ => AllOrdinary returned.toList) (takeReturn scope store) := by
  rw [takeReturn, get_bind]
  cases hvalue : store.pendingReturn? scope with
  | some value =>
    exact ⟨h.putReturn scope allOrdinary_nil,
      allOrdinary_singleton (h.ordinary_pendingReturn? hvalue)⟩
  | none => exact ⟨h, allOrdinary_nil⟩

theorem properly_insertPair {table : Table} (key : Value) {value : Value} (span : Span)
    (htable : AllOrdinary table.values) (hvalue : value.Ordinary) :
    Properly (fun after _ => AllOrdinary after.values) (insertPair table key value span store) := by
  rw [insertPair, Table.insert]
  cases key.key with
  | error refusal => exact h
  | ok k => exact ⟨h, Assoc.allOrdinary_insert htable k hvalue⟩

omit h in
theorem proper_defines {scope : Ref .scope} : ∀ {bindings : List (String × Value)} {store : Store},
    store.Proper → AllOrdinary (bindings.map Prod.snd) →
    (bindings.foldl (fun store (name, value) => store.define scope name value) store).Proper
  | [], _, h, _ => h
  | (name, value) :: rest, store, h, hbindings => by
    obtain ⟨hvalue, hrest⟩ := List.forall_mem_cons.1 hbindings
    rw [List.foldl_cons]
    exact proper_defines (h.define scope name hvalue) hrest

theorem properly_enter {closure : Closure} {arguments : List Value}
    (hscope : store.HasScope closure.scope) (harguments : AllOrdinary arguments) :
    Properly (fun _ _ => True) (enter closure arguments store) := by
  have hinner : (store.addScope .function (some closure.scope)).2.Proper :=
    h.addScope .function (by rintro p ⟨⟩; exact hscope)
  refine ⟨proper_defines hinner fun v hv => ?_, trivial⟩
  obtain ⟨⟨name, value⟩, hpair, rfl⟩ := List.mem_map.1 hv
  exact harguments value (List.of_mem_zip hpair).2

/-- What a single step evaluates is ordinary, if what is at hand is. -/
theorem properly_single {scope? : Option (Ref .scope)} {values : List Value} {x : Eval Value}
    (hscope : ∀ scope, scope? = some scope → store.HasScope scope) (hvalues : AllOrdinary values)
    (hx : Single scope? values x) : ProperlyOrdinary (x store) := by
  cases hx with
  -- Operators give numbers, booleans and strings, which are hashable and so ordinary.
  | constant hv => exact ⟨h, hv.elim (fun hnull => hnull ▸ Value.ordinary_null) (·.ordinary)⟩
  | fails hcause span => exact h
  | resolve hs ident => exact properly_resolve h _ ident
  | closure hs => exact ⟨h.addClosure (hscope _ hs), nofun⟩
  | array helements => exact ⟨h.addArray fun v hv => hvalues v (helements hv), nofun⟩
  | map htable => exact ⟨h.addMap fun v hv => hvalues v (htable hv), nofun⟩
  | @binding scope hs name value hvalue =>
    exact ⟨h.define scope name (hvalues value hvalue), Value.ordinary_null⟩
  | @assignment scope hs ident value hvalue =>
    refine (properly_assignName h scope ident (hvalues value hvalue)).bind ?_
    exact fun _ _ hafter _ => ⟨hafter, hvalues value hvalue⟩
  | unary op value span =>
    exact properly_lift h span fun v hv => (UnaryOp.hashable_apply hv).ordinary
  | binary op left right span =>
    exact properly_lift h span fun v hv => (BinaryOp.hashable_apply hv).ordinary
  | index htarget key span => exact properly_lift h span fun v hv => h.ordinary_index hv
  | builtin b harguments span =>
    exact properly_callBuiltin h b span fun v hv => hvalues v (harguments hv)

end Evaluations

/-! ### Steps -/

section Step

variable {frames : List Frame} {active : Nat}

/-- A machine goes on from an evaluation that leaves a proper store. -/
theorem Proper.proceed {P : α → Store → Prop} {next : α → Store → Machine}
    {r : EStateM.Result RuntimeError Store α} (hr : Properly P r)
    (hframes : ∀ frame ∈ frames, AllOrdinary frame.values)
    (hnext : ∀ a after, after.Proper → P a after → (next a after).Proper) :
    (proceed frames active next r).Proper := by
  cases r with
  | ok a after => exact hnext a after hr.1 hr.2
  | error error after => exact ⟨hr, allOrdinary_nil, hframes⟩

theorem Proper.answer {r : EStateM.Result RuntimeError Store Value} (hr : ProperlyOrdinary r)
    (hframes : ∀ frame ∈ frames, AllOrdinary frame.values) : (answer frames active r).Proper :=
  Proper.proceed hr hframes fun _ _ hafter hvalue => ⟨hafter, allOrdinary_singleton hvalue, hframes⟩

/-- What is at hand for a proper machine is ordinary, and so are the frames behind. -/
theorem Proper.atHand {m : Machine} {front : Front} (h : m.Proper) (hat : m.At front) :
    AllOrdinary front.values ∧ ∀ frame ∈ front.rest, AllOrdinary frame.values := by
  obtain ⟨-, htask, hframes⟩ := h
  cases hat with
  | task => exact ⟨htask, hframes⟩
  | frame =>
    obtain ⟨hframe, hrest⟩ := List.forall_mem_cons.1 hframes
    exact ⟨allOrdinary_append htask hframe, hrest⟩

/-- Going on with what is at hand leaves ordinary values only. -/
theorem Proper.goes (h : store.Proper) {front : Front} {m : Machine}
    (hscope : ∀ scope, front.scope? = some scope → store.HasScope scope)
    (hvalues : AllOrdinary front.values) (hrest : ∀ frame ∈ front.rest, AllOrdinary frame.values)
    (hgoes : Goes front store active m) : m.Proper := by
  cases hgoes with
  | turns htask => exact ⟨h, fun v hv => hvalues v (htask.values hv), hrest⟩
  | asks hs hframe =>
    exact ⟨h, allOrdinary_nil,
      List.forall_mem_cons.2 ⟨fun v hv => hvalues v (hframe.values hv), hrest⟩⟩
  | beginsNode hs hreturn =>
    exact ⟨h, allOrdinary_nil, List.forall_mem_cons.2 ⟨allOrdinary_nil, hrest⟩⟩
  | answers hx => exact Proper.answer (properly_single h hscope hvalues hx) hrest
  | inserts key span rest hs htable hvalue =>
    have htable' : AllOrdinary (Table.values _) := fun v hv => hvalues v (htable hv)
    refine Proper.proceed (properly_insertPair h key span htable' (hvalues _ hvalue)) hrest ?_
    exact fun table after hafter htable => ⟨hafter, htable, hrest⟩
  -- A `return` without a value leaves null behind, which is ordinary.
  | @leavesReturn scope value hs hreturn hvalue =>
    have hordinary := allOrdinary_cons Value.ordinary_null hvalues value hvalue
    exact ⟨h.putReturn scope (allOrdinary_singleton hordinary),
      allOrdinary_singleton Value.ordinary_null, hrest⟩
  | beginsBlock b hs hreturn =>
    exact ⟨h.addScope .block (by rintro p ⟨⟩; exact hscope _ hs), allOrdinary_nil, hrest⟩

end Step

/-- **One step** of a machine that holds nothing but what exists. -/
theorem Proper.step {m m' : Machine} (hm : m.Proper) (hsound : m.Sound)
    (hstep : m.step = some m') : m'.Proper := by
  have ⟨hstore, htask, hframes⟩ := hm
  cases does_of_step hstep with
  | goes hat hgoes =>
    obtain ⟨hvalues, hrest⟩ := hm.atHand hat
    refine Proper.goes hstore (fun scope hs => ?_) hvalues hrest hgoes
    -- A scope at hand is reachable from the machine, so it exists; this is where soundness enters.
    have hhas : m.store.Has (.scope scope) :=
      allowed_empty_iff.1 ((Within.atHand hsound hat).scope scope hs)
    exact Option.isSome_iff_exists.1 hhas
  | @assignsElement key value target span =>
    obtain ⟨hframe, hrest⟩ := List.forall_mem_cons.1 hframes
    have hvalue := hframe value List.mem_cons_self
    refine Proper.answer ((properly_assignElement hstore target key span hvalue).bind ?_) hrest
    exact fun _ _ hafter _ => ⟨hafter, hvalue⟩
  | enters hget harity hlt henter =>
    have hscope := hstore.wellFormed.closure_scope hget
    have hafter := properly_enter hstore hscope (List.forall_mem_cons.1 htask).2
    rw [henter] at hafter
    exact ⟨hafter.1, allOrdinary_nil, List.forall_mem_cons.2 ⟨allOrdinary_nil, hframes⟩⟩
  | refuses => exact ⟨hstore, allOrdinary_nil, hframes⟩
  | drops => exact ⟨hstore, allOrdinary_nil, (List.forall_mem_cons.1 hframes).2⟩
  | leavesBody =>
    have hrest := (List.forall_mem_cons.1 hframes).2
    refine Proper.proceed (properly_takeReturn hstore _) hrest fun returned after hafter hv => ?_
    exact ⟨hafter, allOrdinary_singleton (hv.getD_null fun _ => Option.mem_toList.2), hrest⟩
  | beginsTopLevel =>
    exact ⟨hstore, allOrdinary_nil, List.forall_mem_cons.2 ⟨allOrdinary_nil, hframes⟩⟩
  | endsTopLevel =>
    have hrest := (List.forall_mem_cons.1 hframes).2
    refine Proper.proceed (properly_takeReturn hstore _) hrest fun returned after hafter hv => ?_
    cases returned with
    | none => exact ⟨hafter, htask, hrest⟩
    | some v => exact ⟨hafter, hv, hrest⟩

/-- **A whole run.** -/
theorem Proper.steps {m m' : Machine} (hm : m.Proper) (hsound : m.Sound) (hsteps : Steps m m') :
    m'.Proper := by
  induction hsteps with
  | refl => exact hm
  | tail hbefore hstep ih => exact ih.step (hsound.steps hbefore) hstep

end Machine

end Script

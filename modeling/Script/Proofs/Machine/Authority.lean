import Script.Proofs.Machine.Step
import Script.Proofs.Operation
import Script.Proofs.Store.Authority

/-!
# Evaluation gains no access

An evaluation gets at nothing but what its scope leads to and what it makes itself. This is a
property of single steps: whatever a machine holds, in its task or in a frame, is allowed, and a
step keeps it so.

* `Within.step`: one step;
* `Within.steps`: a whole run.
-/

namespace Script

open Store (Allowed Confined)

/-! ### What a machine holds -/

/-- What is held for the values of a list. -/
def Goal.objects : Goal → List Object
  | .array => []
  | .call function _ _ => function.objects

/-- What a task holds. -/
def Task.objects : Task → List Object
  | .expression scope _ => [.scope scope]
  | .items goal scope values _ => .scope scope :: (goal.objects ++ values.flatMap Value.objects)
  | .pairs scope table _ => .scope scope :: table.objects
  | .call function arguments _ _ => function.objects ++ arguments.flatMap Value.objects
  | .node scope _ => [.scope scope]
  | .nodes scope _ => [.scope scope]
  | .topLevel scope last _ => .scope scope :: last.objects
  | .give value => value.objects
  | .fail _ => []

/-- What a frame holds. -/
def Frame.objects : Frame → List Object
  | .item goal scope values _ => .scope scope :: (goal.objects ++ values.flatMap Value.objects)
  | .key scope table _ _ _ => .scope scope :: table.objects
  | .entry scope table k _ _ => .scope scope :: (table.objects ++ k.objects)
  | .operand _ _ => []
  | .left _ scope _ _ => [.scope scope]
  | .right _ l _ => l.objects
  | .assigned scope _ => [.scope scope]
  | .assignedTarget scope value _ _ => .scope scope :: value.objects
  | .assignedKey value target _ => value.objects ++ target.objects
  | .indexed scope _ _ => [.scope scope]
  | .index target _ => target.objects
  | .callee scope _ _ _ => [.scope scope]
  | .binding scope _ => [.scope scope]
  | .returning scope => [.scope scope]
  | .condition scope _ _ => [.scope scope]
  | .nodes scope _ => [.scope scope]
  | .body scope => [.scope scope]
  | .topLevel scope _ => [.scope scope]

theorem Task.mem_objects_iff {task : Task} {o : Object} :
    o ∈ task.objects ↔ (∃ scope, task.scope? = some scope ∧ o = .scope scope) ∨
      o ∈ task.values.flatMap Value.objects := by
  cases task with
  | items goal scope held rest =>
    cases goal <;> simp [objects, scope?, values, Goal.objects, Goal.values]
  | pairs scope table rest => simp [objects, scope?, values, Table.flatMap_values]
  | _ => simp [objects, scope?, values]

theorem Frame.mem_objects_iff {frame : Frame} {o : Object} :
    o ∈ frame.objects ↔ (∃ scope, frame.scope? = some scope ∧ o = .scope scope) ∨
      o ∈ frame.values.flatMap Value.objects := by
  cases frame with
  | item goal scope held rest =>
    cases goal <;> simp [objects, scope?, values, Goal.objects, Goal.values]
  | key scope table keySpan entry rest => simp [objects, scope?, values, Table.flatMap_values]
  | entry scope table key keySpan rest =>
    rw [objects, List.mem_cons, List.mem_append, @or_comm (o ∈ table.objects)]
    simp [scope?, values, Table.flatMap_values]
  | _ => simp [objects, scope?, values]

namespace Machine

open Eval

variable {α β : Type} {before now after : Store} {roots : Object → Prop}

/-- A list of objects that are all allowed. -/
def AllAllowed (before : Store) (roots : Object → Prop) (now : Store) (l : List Object) : Prop :=
  ∀ o ∈ l, Allowed before roots now o

/-- A machine holds nothing but what is allowed, and its store gives access to nothing else. -/
structure Within (before : Store) (roots : Object → Prop) (m : Machine) : Prop where
  store : Confined before roots m.store
  task : AllAllowed before roots m.store m.task.objects
  frames : ∀ frame ∈ m.frames, AllAllowed before roots m.store frame.objects

section AllAllowed

variable {l l' : List Object}

theorem allAllowed_nil : AllAllowed before roots now [] := by
  simp [AllAllowed]

theorem allAllowed_cons {o : Object} (ho : Allowed before roots now o)
    (hl : AllAllowed before roots now l) : AllAllowed before roots now (o :: l) :=
  List.forall_mem_cons.2 ⟨ho, hl⟩

theorem allAllowed_append (hl : AllAllowed before roots now l)
    (hl' : AllAllowed before roots now l') : AllAllowed before roots now (l ++ l') :=
  List.forall_mem_append.2 ⟨hl, hl'⟩

theorem AllAllowed.mono (h : AllAllowed before roots now l)
    (hhas : ∀ o, now.Has o → after.Has o) : AllAllowed before roots after l :=
  fun o ho => (h o ho).mono hhas

theorem AllAllowed.of_subset {values values' : List Value}
    (h : AllAllowed before roots now (values.flatMap Value.objects)) (hsub : values' ⊆ values) :
    AllAllowed before roots now (values'.flatMap Value.objects) := by
  intro o ho
  obtain ⟨v, hv, ho⟩ := List.mem_flatMap.1 ho
  exact h o (List.mem_flatMap.2 ⟨v, hsub hv, ho⟩)

theorem AllAllowed.of_mem {values : List Value} {v : Value}
    (h : AllAllowed before roots now (values.flatMap Value.objects)) (hv : v ∈ values) :
    AllAllowed before roots now v.objects :=
  fun o ho => h o (List.mem_flatMap.2 ⟨v, hv, ho⟩)

end AllAllowed

/-! ### Single evaluations -/

/-- An evaluation that ends within what is allowed, and so does what it gives. -/
def Safe (before : Store) (roots : Object → Prop) (now : Store) (objects : α → List Object) :
    EStateM.Result RuntimeError Store α → Prop
  | .ok a after => Confined before roots after ∧ (∀ o, now.Has o → after.Has o) ∧
      AllAllowed before roots after (objects a)
  | .error _ after => Confined before roots after ∧ ∀ o, now.Has o → after.Has o

section Safe

variable (h : Confined before roots now)
include h

theorem safe_ok {objects : α → List Object} {a : α}
    (ha : AllAllowed before roots now (objects a)) :
    Safe before roots now objects (.ok a now) :=
  ⟨h, fun _ ho => ho, ha⟩

theorem safe_error {objects : α → List Object} (error : RuntimeError) :
    Safe before roots now objects (.error error now) :=
  ⟨h, fun _ ho => ho⟩

/-- A result that is known already is safe if what it refers to is allowed. -/
theorem safe_lift {objects : α → List Object} (span : Span) {r : Except RuntimeCause α}
    (hr : ∀ a, r = .ok a → AllAllowed before roots now (objects a)) :
    Safe before roots now objects (lift span r now) := by
  cases r with
  | ok a => exact safe_ok h (hr a rfl)
  | error cause => exact safe_error h _

/-- A change of one allowed object that lets it refer to allowed ones only is safe. -/
theorem safe_change {objects : α → List Object} {target : Object} {a : α}
    (hchange : now.ChangesAt target after) (htarget : Allowed before roots after target)
    (hchildren : AllAllowed before roots after (after.children target))
    (ha : AllAllowed before roots after (objects a)) :
    Safe before roots now objects (.ok a after) :=
  ⟨h.change hchange htarget hchildren, hchange.has, ha⟩

/-- A change of an allowed object is safe if the object refers to what it referred to, and besides
to allowed ones only. -/
theorem safe_extend {target : Object} (hchange : now.ChangesAt target after)
    (htarget : Allowed before roots now target)
    (hchildren : ∀ o ∈ after.children target,
      o ∈ now.children target ∨ Allowed before roots now o) :
    Safe before roots now (fun _ => []) (.ok () after) := by
  refine safe_change h hchange (htarget.mono hchange.has) (fun o ho => ?_) allAllowed_nil
  exact ((hchildren o ho).elim (h.closed _ htarget o) id).mono hchange.has

omit h in
theorem Safe.bind {objects : α → List Object} {objects' : β → List Object} {x : Eval α}
    {f : α → Eval β} (hx : Safe before roots now objects (x now))
    (hf : ∀ a after, Confined before roots after → (∀ o, now.Has o → after.Has o) →
      AllAllowed before roots after (objects a) → Safe before roots after objects' (f a after)) :
    Safe before roots now objects' ((x >>= f) now) := by
  cases hxs : x now with
  | error error after =>
    rw [hxs] at hx
    rw [bind_error hxs]
    exact hx
  | ok a after =>
    rw [hxs] at hx
    rw [bind_ok hxs]
    obtain ⟨hafter, hhas, ha⟩ := hx
    have hnext := hf a after hafter hhas ha
    cases hfs : f a after with
    | error error after' =>
      rw [hfs] at hnext
      exact ⟨hnext.1, fun o ho => hnext.2 o (hhas o ho)⟩
    | ok b after' =>
      rw [hfs] at hnext
      exact ⟨hnext.1, fun o ho => hnext.2.1 o (hhas o ho), hnext.2.2⟩

/-! #### Changes of the store -/

/-- A new object that refers to allowed ones only is safe. -/
theorem safe_new {objects : α → List Object} {target : Object} {a : α}
    (hadds : now.AddsAt target after)
    (hchildren : AllAllowed before roots now (after.children target))
    (ha : objects a = [target]) : Safe before roots now objects (.ok a after) := by
  have htarget := h.allowed_new hadds
  refine safe_change h hadds.toChangesAt htarget (hchildren.mono hadds.has) ?_
  rw [ha]
  exact allAllowed_cons htarget allAllowed_nil

theorem safe_addArray {elements : List Value}
    (helements : AllAllowed before roots now (elements.flatMap Value.objects)) :
    Safe before roots now Value.objects
      (.ok (now.addArray elements).1 (now.addArray elements).2) := by
  refine safe_new h (Store.addsAt_addArray elements) ?_ rfl
  rw [Store.children_addArray]
  exact helements

theorem safe_addMap {table : Table} (htable : AllAllowed before roots now table.objects) :
    Safe before roots now Value.objects (.ok (now.addMap table).1 (now.addMap table).2) := by
  refine safe_new h (Store.addsAt_addMap table) ?_ rfl
  rw [Store.children_addMap]
  exact htable

theorem safe_addClosure (closure : Closure)
    (hscope : Allowed before roots now (.scope closure.scope)) :
    Safe before roots now Value.objects
      (.ok (now.addClosure closure).1 (now.addClosure closure).2) := by
  refine safe_new h (Store.addsAt_addClosure closure) ?_ rfl
  rw [Store.children_addClosure]
  exact allAllowed_cons hscope allAllowed_nil

theorem safe_addScope (kind : ScopeKind) {scope : Ref .scope}
    (hscope : Allowed before roots now (.scope scope)) :
    Safe before roots now (fun inner => [.scope inner])
      (.ok (now.addScope kind (some scope)).1 (now.addScope kind (some scope)).2) := by
  refine safe_new h (Store.addsAt_addScope kind (some scope)) ?_ rfl
  rw [Store.children_addScope]
  exact allAllowed_cons hscope allAllowed_nil

section Scope

variable {scope : Ref .scope} (hscope : Allowed before roots now (.scope scope))
include hscope

theorem safe_define (name : String) {value : Value}
    (hvalue : AllAllowed before roots now value.objects) :
    Safe before roots now (fun _ => []) (.ok () (now.define scope name value)) := by
  have hchange := Store.changesAt_scopes (now.scopes.changesAt_modify scope fun s =>
    { s with bindings := s.bindings.insert name value })
  exact safe_extend h hchange hscope fun o ho => (Store.mem_children_define ho).imp_right (hvalue o)

theorem safe_putReturn {value : Option Value}
    (hvalue : AllAllowed before roots now (value.toList.flatMap Value.objects)) :
    Safe before roots now (fun _ => []) (.ok () (now.putReturn scope value)) := by
  have hboundary := h.boundary hscope
  have hchange := Store.changesAt_scopes (now.scopes.changesAt_modify (now.boundary scope) fun s =>
    { s with returned := value })
  exact safe_extend h hchange hboundary fun o ho =>
    (Store.mem_children_putReturn ho).imp_right (hvalue o)

theorem safe_resolve (ident : Ident) :
    Safe before roots now Value.objects (resolve scope ident now) := by
  rw [resolve, get_bind]
  cases hvalue : now.lookup? scope ident.name with
  | some value => exact safe_ok h (h.lookup? hscope hvalue)
  | none =>
    cases Builtin.ofName? ident.name with
    | some b => exact safe_ok h allAllowed_nil
    | none => exact safe_error h _

theorem safe_assignName (ident : Ident) {value : Value}
    (hvalue : AllAllowed before roots now value.objects) :
    Safe before roots now (fun _ => []) (assignName scope ident value now) := by
  rw [assignName, get_bind]
  cases howner : now.owner? scope ident.name with
  | some owner => exact safe_define h (h.owner? hscope howner) ident.name hvalue
  | none => exact safe_error h _

theorem safe_takeReturn :
    Safe before roots now (fun returned => returned.toList.flatMap Value.objects)
      (takeReturn scope now) := by
  rw [takeReturn, get_bind]
  cases hvalue : now.pendingReturn? scope with
  | some value =>
    have hclear : Safe before roots now (fun _ => []) (.ok () (now.clearReturn scope)) :=
      safe_putReturn h hscope allAllowed_nil
    refine Safe.bind (x := modify _) hclear fun _ after hafter hhas _ => safe_ok hafter ?_
    have hvalue' := h.pendingReturn? hscope hvalue
    simpa using AllAllowed.mono hvalue' hhas
  | none => exact safe_ok h allAllowed_nil

end Scope

/-! #### Arrays and maps -/

theorem allowed_elements {ref : Ref .array} (href : Allowed before roots now (.array ref)) :
    AllAllowed before roots now ((now.elements ref).flatMap Value.objects) := by
  intro o ho
  obtain ⟨value, hvalue, ho⟩ := List.mem_flatMap.1 ho
  exact h.closed _ href o (Store.mem_children_elements hvalue ho)

theorem safe_assignElement {target key value : Value} (span : Span)
    (htarget : AllAllowed before roots now target.objects)
    (hvalue : AllAllowed before roots now value.objects) :
    Safe before roots now (fun _ => []) (assignElement target key value span now) := by
  rw [assignElement, get_bind]
  cases hplace : now.place target key with
  | error cause => exact safe_error h _
  | ok place =>
    show Safe before roots now _ (.ok () (now.write place value))
    rcases Store.place_cases hplace with ⟨ref, position, rfl, rfl⟩ | ⟨ref, k, rfl, rfl⟩
    · have href := htarget _ List.mem_cons_self
      have hchange := Store.changesAt_arrays (now.arrays.changesAt_modify ref
        (·.set position value))
      exact safe_extend h hchange href fun o ho =>
        (Store.mem_children_setElement ho).imp_right (hvalue o)
    · have href := htarget _ List.mem_cons_self
      have hchange := Store.changesAt_maps (now.maps.changesAt_modify ref
        (Assoc.insert · k value))
      exact safe_extend h hchange href fun o ho =>
        (Store.mem_children_insert ho).imp_right (hvalue o)

theorem allowed_index {target key value : Value} (hvalue : now.index target key = .ok value)
    (htarget : AllAllowed before roots now target.objects) :
    AllAllowed before roots now value.objects := by
  intro o ho
  rw [Store.index] at hvalue
  cases hplace : now.place target key with
  | error cause =>
    rw [hplace] at hvalue
    cases hvalue
  | ok place =>
    rw [hplace] at hvalue
    rcases Store.place_cases hplace with ⟨ref, position, rfl, rfl⟩ | ⟨ref, k, rfl, rfl⟩
    · obtain rfl := Except.ok.inj hvalue
      have hmem := Store.mem_of_mem_objects_getD ho
      exact h.closed _ (htarget _ List.mem_cons_self) o (Store.mem_children_elements hmem ho)
    · dsimp only at hvalue
      split at hvalue
      · next found hfound =>
        obtain rfl := Except.ok.inj hvalue
        exact h.closed _ (htarget _ List.mem_cons_self) o (Store.mem_children_table hfound ho)
      · cases hvalue

theorem safe_insertPair {table : Table} (key : Value) {value : Value} (span : Span)
    (htable : AllAllowed before roots now table.objects)
    (hvalue : AllAllowed before roots now value.objects) :
    Safe before roots now Table.objects (insertPair table key value span now) := by
  rw [insertPair, Table.insert]
  cases key.key with
  | error refusal => exact safe_error h _
  | ok k =>
    refine safe_ok h fun o ho => ?_
    rcases Store.mem_objects_insert ho with ho | ho
    · exact htable o ho
    · exact hvalue o ho

/-! #### Calls -/

theorem safe_callBuiltin (b : Builtin) {arguments : List Value} (span : Span)
    (harguments : AllAllowed before roots now (arguments.flatMap Value.objects)) :
    Safe before roots now Value.objects (callBuiltin b arguments span now) := by
  rw [callBuiltin, get_bind]
  cases hresult : b.result now arguments with
  | error cause => exact safe_error h _
  | ok result =>
    have hobjects : AllAllowed before roots now result.objects := by
      intro o ho
      rcases Builtin.mem_objects_result hresult ho with ho | ⟨ref, href, ho⟩
      · exact harguments o ho
      · have hallowed := harguments (.array ref)
          (List.mem_flatMap.2 ⟨.array ref, href, List.mem_cons_self⟩)
        exact allowed_elements h hallowed o ho
    cases result with
    | value value => exact safe_ok h hobjects
    | newArray elements => exact safe_addArray h hobjects

/-- The scope that a function was made in is allowed with the function. -/
theorem allowed_closure_scope {ref : Ref .closure} {closure : Closure}
    (href : Allowed before roots now (.closure ref)) (hget : now.closures.get? ref = some closure) :
    Allowed before roots now (.scope closure.scope) := by
  refine h.closed _ href _ ?_
  simp [Store.children, hget]

omit h in
theorem safe_defines {scope : Ref .scope} : ∀ {bindings : List (String × Value)} {now : Store},
    Confined before roots now → Allowed before roots now (.scope scope) →
    AllAllowed before roots now (bindings.flatMap (·.2.objects)) →
    Safe before roots now (fun _ : Unit => []) (.ok () (bindings.foldl
      (fun store (name, value) => store.define scope name value) now))
  | [], now, h, _, _ => safe_ok h allAllowed_nil
  | (name, value) :: rest, now, h, hscope, hbindings => by
    rw [List.flatMap_cons] at hbindings
    obtain ⟨hvalue, hrest⟩ := List.forall_mem_append.1 hbindings
    obtain ⟨hnext, hhas, -⟩ := safe_define h hscope name hvalue
    obtain ⟨hlast, hhas', -⟩ := safe_defines hnext (hscope.mono hhas) (AllAllowed.mono hrest hhas)
    exact ⟨hlast, fun o ho => hhas' o (hhas o ho), allAllowed_nil⟩

omit h in
theorem allAllowed_zip (names : List String) {values : List Value}
    (hvalues : AllAllowed before roots now (values.flatMap Value.objects)) :
    AllAllowed before roots now ((names.zip values).flatMap (·.2.objects)) := by
  intro o ho
  obtain ⟨⟨name, value⟩, hpair, ho⟩ := List.mem_flatMap.1 ho
  exact hvalues o (List.mem_flatMap.2 ⟨value, (List.of_mem_zip hpair).2, ho⟩)

theorem safe_enter {closure : Closure} {arguments : List Value}
    (hscope : Allowed before roots now (.scope closure.scope))
    (harguments : AllAllowed before roots now (arguments.flatMap Value.objects)) :
    Safe before roots now (fun scope => [.scope scope]) (enter closure arguments now) := by
  refine Safe.bind (x := inner .function closure.scope) (safe_addScope h .function hscope)
    fun scope after hafter hhas hinner => ?_
  have hscope' := hinner _ List.mem_cons_self
  have hdefines := safe_defines hafter hscope'
    (allAllowed_zip closure.parameters (harguments.mono hhas))
  refine Safe.bind (x := modify _) hdefines fun _ after' hafter' hhas' _ => ?_
  exact safe_ok hafter' (allAllowed_cons (hscope'.mono hhas') allAllowed_nil)

/-- What a single step evaluates is safe, if what is at hand is allowed. -/
theorem safe_single {scope? : Option (Ref .scope)} {values : List Value} {x : Eval Value}
    (hscope : ∀ scope, scope? = some scope → Allowed before roots now (.scope scope))
    (hvalues : AllAllowed before roots now (values.flatMap Value.objects))
    (hx : Single scope? values x) : Safe before roots now Value.objects (x now) := by
  -- The objects of the result are among those at hand, new, or held by an object that is allowed
  -- already.
  cases hx with
  | @constant v hv =>
    refine safe_ok h ?_
    rcases hv with rfl | hv
    · exact allAllowed_nil
    · rw [hv.objects_eq_nil]
      exact allAllowed_nil
  | fails hcause span => exact safe_error h _
  | resolve hs ident => exact safe_resolve h (hscope _ hs) ident
  | @closure closure hs => exact safe_addClosure h closure (hscope _ hs)
  | array helements => exact safe_addArray h (hvalues.of_subset helements)
  | map htable =>
    refine safe_addMap h ?_
    rw [← Table.flatMap_values]
    exact hvalues.of_subset htable
  | binding hs name hvalue =>
    refine Safe.bind (x := modify _) (safe_define h (hscope _ hs) name (hvalues.of_mem hvalue)) ?_
    exact fun _ after hafter _ _ => safe_ok hafter allAllowed_nil
  | assignment hs ident hvalue =>
    refine Safe.bind (safe_assignName h (hscope _ hs) ident (hvalues.of_mem hvalue)) ?_
    exact fun _ after hafter hhas _ => safe_ok hafter (AllAllowed.mono (hvalues.of_mem hvalue) hhas)
  | unary op value span =>
    refine safe_lift h span fun v hv => ?_
    rw [(UnaryOp.hashable_apply hv).objects_eq_nil]
    exact allAllowed_nil
  | binary op left right span =>
    refine safe_lift h span fun v hv => ?_
    rw [(BinaryOp.hashable_apply hv).objects_eq_nil]
    exact allAllowed_nil
  | index htarget key span =>
    exact safe_lift h span fun v hv => allowed_index h hv (hvalues.of_mem htarget)
  | builtin b harguments span => exact safe_callBuiltin h b span (hvalues.of_subset harguments)

end Safe

/-! ### Steps -/

section Step

variable {frames : List Frame} {active : Nat}

/-- A machine goes on within what is allowed from a safe result. -/
theorem Within.proceed {objects : α → List Object} {next : α → Store → Machine}
    {r : EStateM.Result RuntimeError Store α} (hr : Safe before roots now objects r)
    (hframes : ∀ frame ∈ frames, AllAllowed before roots now frame.objects)
    (hnext : ∀ a after, Confined before roots after → (∀ o, now.Has o → after.Has o) →
      AllAllowed before roots after (objects a) →
      (∀ frame ∈ frames, AllAllowed before roots after frame.objects) →
      Within before roots (next a after)) :
    Within before roots (proceed frames active next r) := by
  cases r with
  | ok a after =>
    obtain ⟨hafter, hhas, ha⟩ := hr
    exact hnext a after hafter hhas ha fun frame hframe => (hframes frame hframe).mono hhas
  | error error after =>
    obtain ⟨hafter, hhas⟩ := hr
    exact ⟨hafter, allAllowed_nil, fun frame hframe => (hframes frame hframe).mono hhas⟩

theorem Within.answer {r : EStateM.Result RuntimeError Store Value}
    (hr : Safe before roots now Value.objects r)
    (hframes : ∀ frame ∈ frames, AllAllowed before roots now frame.objects) :
    Within before roots (answer frames active r) :=
  Within.proceed hr hframes fun _ _ hafter _ ha hframes => ⟨hafter, ha, hframes⟩

/-- What is at hand is allowed, and so are the frames behind. -/
structure AtHand (before : Store) (roots : Object → Prop) (now : Store) (front : Front) : Prop where
  scope : ∀ scope, front.scope? = some scope → Allowed before roots now (.scope scope)
  values : AllAllowed before roots now (front.values.flatMap Value.objects)
  frames : ∀ frame ∈ front.rest, AllAllowed before roots now frame.objects

theorem Within.atHand {m : Machine} {front : Front} (h : Within before roots m)
    (hat : m.At front) : AtHand before roots m.store front := by
  obtain ⟨-, htask, hframes⟩ := h
  cases hat with
  | task =>
    exact ⟨fun scope hs => htask _ (Task.mem_objects_iff.2 (.inl ⟨scope, hs, rfl⟩)),
      fun o ho => htask o (Task.mem_objects_iff.2 (.inr ho)), hframes⟩
  | frame hcalls hprogram =>
    obtain ⟨hframe, hrest⟩ := List.forall_mem_cons.1 hframes
    refine ⟨fun scope hs => hframe _ (Frame.mem_objects_iff.2 (.inl ⟨scope, hs, rfl⟩)), ?_, hrest⟩
    rw [List.flatMap_cons]
    exact allAllowed_append htask fun o ho => hframe o (Frame.mem_objects_iff.2 (.inr ho))

section AtHand

variable {front : Front} (hfront : AtHand before roots now front)
include hfront

theorem AtHand.task {task : Task} (h : task.MadeOf front) :
    AllAllowed before roots now task.objects := by
  intro o ho
  rcases Task.mem_objects_iff.1 ho with ⟨scope, hs, rfl⟩ | ho
  · exact hfront.scope scope (h.scope scope hs)
  · exact hfront.values.of_subset h.values o ho

theorem AtHand.frame {frame : Frame} (h : frame.MadeOf front) :
    AllAllowed before roots now frame.objects := by
  intro o ho
  rcases Frame.mem_objects_iff.1 ho with ⟨scope, hs, rfl⟩ | ho
  · exact hfront.scope scope (h.scope scope hs)
  · exact hfront.values.of_subset h.values o ho

/-- Going on with what is at hand gains no access. -/
theorem Within.goes (h : Confined before roots now) {m : Machine}
    (hgoes : Goes front now active m) : Within before roots m := by
  cases hgoes with
  | turns htask => exact ⟨h, hfront.task htask, hfront.frames⟩
  | asks hs hframe =>
    exact ⟨h, allAllowed_cons (hfront.scope _ hs) allAllowed_nil,
      List.forall_mem_cons.2 ⟨hfront.frame hframe, hfront.frames⟩⟩
  | beginsNode hs hreturn =>
    have hself := allAllowed_cons (hfront.scope _ hs) allAllowed_nil
    exact ⟨h, hself, List.forall_mem_cons.2 ⟨hself, hfront.frames⟩⟩
  | answers hx => exact Within.answer (safe_single h hfront.scope hfront.values hx) hfront.frames
  | inserts key span rest hs htable hvalue =>
    have htable' := hfront.values.of_subset htable
    rw [Table.flatMap_values] at htable'
    have hinsert := safe_insertPair h key span htable' (hfront.values.of_mem hvalue)
    refine Within.proceed hinsert hfront.frames ?_
    exact fun table after hafter hhas htable hframes =>
      ⟨hafter, allAllowed_cons ((hfront.scope _ hs).mono hhas) htable, hframes⟩
  | @leavesReturn scope value hs hreturn hvalue =>
    -- `setReturn` changes the scope alone, so it is one step that gives no object.
    have hset : Safe before roots now (fun _ => []) (.ok () (now.setReturn scope value)) := by
      refine safe_putReturn h (hfront.scope _ hs) ?_
      rcases List.mem_cons.1 hvalue with rfl | hvalue
      · exact allAllowed_nil
      · simpa using hfront.values.of_mem hvalue
    exact ⟨hset.1, allAllowed_nil,
      fun frame hframe => (hfront.frames frame hframe).mono hset.2.1⟩
  | beginsBlock b hs hreturn =>
    have hadd := safe_addScope h .block (hfront.scope _ hs)
    exact ⟨hadd.1, hadd.2.2, fun frame hframe => (hfront.frames frame hframe).mono hadd.2.1⟩

end AtHand

end Step

/-- **One step gains no access.** -/
theorem Within.step {m m' : Machine} (h : Within before roots m) (hstep : m.step = some m') :
    Within before roots m' := by
  have ⟨hstore, htask, hframes⟩ := h
  cases does_of_step hstep with
  | goes hat hgoes => exact Within.goes (h.atHand hat) hstore hgoes
  | @assignsElement key value target span =>
    obtain ⟨hframe, hrest⟩ := List.forall_mem_cons.1 hframes
    obtain ⟨hvalue, htarget⟩ := List.forall_mem_append.1 hframe
    refine Within.answer (Safe.bind (safe_assignElement hstore span htarget hvalue) ?_) hrest
    exact fun _ after hafter hhas _ => safe_ok hafter (AllAllowed.mono hvalue hhas)
  | enters hget harity hlt henter =>
    obtain ⟨href, harguments⟩ := List.forall_mem_append.1 htask
    have hscope := allowed_closure_scope hstore (href _ List.mem_cons_self) hget
    -- The scope of the call is new, its parent is the one that the function was made in, and it
    -- binds the arguments, which are the objects at hand.
    have hinner := safe_enter hstore hscope harguments
    rw [henter] at hinner
    obtain ⟨hafter, hhas, hinner⟩ := hinner
    exact ⟨hafter, hinner,
      List.forall_mem_cons.2 ⟨hinner, fun frame hframe => (hframes frame hframe).mono hhas⟩⟩
  | refuses hget harity hle => exact ⟨hstore, allAllowed_nil, hframes⟩
  -- What the body has returned was held by its scope.
  | leavesBody =>
    obtain ⟨hframe, hrest⟩ := List.forall_mem_cons.1 hframes
    refine Within.proceed (safe_takeReturn hstore (hframe _ List.mem_cons_self)) hrest ?_
    intro returned after hafter _ hreturned hrest
    refine ⟨hafter, ?_, hrest⟩
    cases returned with
    | none => exact allAllowed_nil
    | some v => simpa [Task.objects] using hreturned
  | beginsTopLevel =>
    have hself := allAllowed_cons (htask _ List.mem_cons_self) allAllowed_nil
    exact ⟨hstore, hself, List.forall_mem_cons.2 ⟨hself, hframes⟩⟩
  | endsTopLevel =>
    obtain ⟨hframe, hrest⟩ := List.forall_mem_cons.1 hframes
    have hscope := hframe _ List.mem_cons_self
    refine Within.proceed (safe_takeReturn hstore hscope) hrest ?_
    intro returned after hafter hhas hreturned hrest
    cases returned with
    | none =>
      exact ⟨hafter, allAllowed_cons (hscope.mono hhas) (AllAllowed.mono htask hhas), hrest⟩
    | some v => exact ⟨hafter, by simpa [Task.objects] using hreturned, hrest⟩
  | drops => exact ⟨hstore, allAllowed_nil, (List.forall_mem_cons.1 hframes).2⟩

/-- **A run gains no access**, however far it goes. -/
theorem Within.steps {m m' : Machine} (h : Within before roots m) (hsteps : Steps m m') :
    Within before roots m' := by
  induction hsteps with
  | refl => exact h
  | tail _ hstep ih => exact ih.step hstep

end Machine

end Script

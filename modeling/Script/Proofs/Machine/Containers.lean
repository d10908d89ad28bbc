import Script.Proofs.Eval.Outlines
import Script.Proofs.Store.Containers

/-!
# Containers change by index assignments alone

A machine changes an array or a map that is there already in one way only: it hands a key to the
frame of an index assignment (`Machine.Assigns`). All other steps leave it as it is, also the calls
of built-in functions and what drops frames on the way of an error. And where a step makes a
container, nothing refers to it yet but the value that is handed on (`Machine.Makes`).

* `Eval.same_callBuiltin`: built-in functions change nothing that is there;
* `Machine.keepsContainers_or_assigns`: one step;
* `Machine.makes_array`, `Machine.makes_map`, `Machine.makes_builtin`: new containers;
* `Store.Closed`: a store whose objects refer to what exists.
-/

namespace Script

namespace Eval

open Store (KeepsContainers)

variable {α β : Type}

/-- An evaluation spares the containers that it finds, whether it succeeds or fails. -/
def SparesContainers (x : Eval α) : Prop :=
  ∀ s : Store, s.KeepsContainers (storeAfter (x s))

theorem SparesContainers.of_ok {x : Eval α} (hx : SparesContainers x) {s s' : Store} {a : α}
    (hok : x s = .ok a s') : s.KeepsContainers s' := by
  have hspares := hx s
  rw [hok] at hspares
  exact hspares

theorem SparesContainers.bind {x : Eval α} {f : α → Eval β} (hx : SparesContainers x)
    (hf : ∀ a, SparesContainers (f a)) : SparesContainers (x >>= f) :=
  fun s => storeAfter_bind (R := KeepsContainers) KeepsContainers.trans (hx s) hf

/-! ### Single evaluations -/

theorem spares_pure (a : α) : SparesContainers (pure a : Eval α) :=
  fun s => .refl s

theorem spares_fail (cause : RuntimeCause) (span : Span) :
    SparesContainers (fail cause span : Eval α) :=
  fun s => .refl s

theorem spares_lift (span : Span) (r : Except RuntimeCause α) : SparesContainers (lift span r) := by
  cases r with
  | ok a => exact spares_pure a
  | error cause => exact spares_fail cause span

theorem spares_get_bind {f : Store → Eval α} (h : ∀ s, SparesContainers (f s)) :
    SparesContainers (get >>= f) :=
  fun s => h s s

theorem keepsContainers_define (s : Store) (scope : Ref .scope) (name : String) (value : Value) :
    s.KeepsContainers (s.define scope name value) :=
  .of_eq rfl rfl

theorem keepsContainers_putReturn (s : Store) (scope : Ref .scope) (value : Option Value) :
    s.KeepsContainers (s.putReturn scope value) :=
  .of_eq rfl rfl

theorem spares_resolve (scope : Ref .scope) (ident : Ident) :
    SparesContainers (resolve scope ident) := by
  refine spares_get_bind fun s => ?_
  split
  · exact spares_pure _
  · split
    · exact spares_pure _
    · exact spares_fail _ _

theorem spares_assignName (scope : Ref .scope) (ident : Ident) (value : Value) :
    SparesContainers (assignName scope ident value) := by
  refine spares_get_bind fun s => ?_
  split
  · exact fun s => keepsContainers_define s _ _ _
  · exact spares_fail _ _

/-- **A built-in function changes nothing that is there**, whether it succeeds or fails. -/
theorem same_callBuiltin (b : Builtin) (arguments : List Value) (span : Span) (s : Store)
    {o : Object} (ho : s.Has o) : s.Same (storeAfter (callBuiltin b arguments span s)) o := by
  rw [callBuiltin, get_bind]
  cases b.result s arguments with
  | error cause => exact .refl s o
  | ok result =>
    cases result with
    | value value => exact .refl s o
    | newArray elements => exact (Store.addsAt_addArray elements).same_of_has ho

theorem spares_callBuiltin (b : Builtin) (arguments : List Value) (span : Span) :
    SparesContainers (callBuiltin b arguments span) :=
  fun s _ _ ho => same_callBuiltin b arguments span s ho

theorem spares_insertPair (table : Table) (key value : Value) (span : Span) :
    SparesContainers (insertPair table key value span) := by
  unfold insertPair
  split
  · exact spares_pure _
  · exact spares_fail _ _

theorem spares_takeReturn (scope : Ref .scope) : SparesContainers (takeReturn scope) := by
  refine spares_get_bind fun s => ?_
  split
  · exact fun s => keepsContainers_putReturn s _ none
  · exact spares_pure _

theorem assignElement_of_ok {s : Store} {target key value : Value} {place : Place}
    (h : s.place target key = .ok place) (span : Span) :
    assignElement target key value span s = .ok () (s.write place value) := by
  rw [assignElement, get_bind, h]
  rfl

theorem assignElement_of_error {s : Store} {target key value : Value} {cause : RuntimeCause}
    (h : s.place target key = .error cause) (span : Span) :
    assignElement target key value span s = .error ⟨cause, span⟩ s := by
  rw [assignElement, get_bind, h]
  rfl

theorem keepsContainers_defines (scope : Ref .scope) (ps : List (String × Value)) (s : Store) :
    s.KeepsContainers (ps.foldl (fun store (name, value) => store.define scope name value) s) := by
  induction ps generalizing s with
  | nil => exact .refl s
  | cons p ps ih => exact (keepsContainers_define s scope p.1 p.2).trans (ih _)

theorem spares_enter (closure : Closure) (arguments : List Value) :
    SparesContainers (enter closure arguments) := by
  refine SparesContainers.bind (x := inner .function closure.scope) (fun s => .of_eq rfl rfl)
    fun scope => ?_
  exact SparesContainers.bind (x := modify _) (fun s => keepsContainers_defines scope _ s)
    fun _ => spares_pure scope

end Eval

/-- A store is closed if what its objects refer to exists. -/
def Store.Closed (store : Store) : Prop :=
  ∀ o, ∀ o' ∈ store.children o, store.Has o'

namespace Machine

open Eval
open Store (KeepsContainers)

variable {α : Type} {frames : List Frame} {active : Nat} {store : Store}

/-! ### Single steps -/

/-- **A machine performs an index assignment**: the key is handed to the frame that holds the value
and the target, they point to a place, and the value is put there. -/
inductive Assigns : Machine → Place → Value → Machine → Prop
  | assign {store : Store} {target key value : Value} {place : Place} (span : Span)
      (frames : List Frame) (active : Nat) (hplace : store.place target key = .ok place) :
      Assigns ⟨.give key, .assignedKey value target span :: frames, store, active⟩ place value
        ⟨.give value, frames, store.write place value, active⟩

section Steps

theorem keeps_proceed {next : α → Store → Machine} {r : EStateM.Result RuntimeError Store α}
    (hr : store.KeepsContainers (storeAfter r))
    (hnext : ∀ a (s : Store), s.KeepsContainers (next a s).store) :
    store.KeepsContainers (proceed frames active next r).store := by
  cases r with
  | ok a s => exact hr.trans (hnext a s)
  | error error s => exact hr

theorem keeps_answer {r : EStateM.Result RuntimeError Store Value}
    (hr : store.KeepsContainers (storeAfter r)) :
    store.KeepsContainers (answer frames active r).store :=
  keeps_proceed hr fun _ s => .refl s

/-- What a single step evaluates spares the containers that there are. -/
theorem spares_single {scope? : Option (Ref .scope)} {values : List Value} {x : Eval Value}
    (hx : Single scope? values x) : SparesContainers x := by
  cases hx with
  | constant h => exact spares_pure _
  | fails h span => exact spares_fail _ span
  | @resolve scope h ident => exact spares_resolve scope ident
  | closure h => exact fun s => .of_eq rfl rfl
  | @array elements h => exact fun s => (Store.addsAt_addArray elements).keepsContainers
  | @map table h => exact fun s => (Store.addsAt_addMap table).keepsContainers
  | @binding scope h name value =>
    exact SparesContainers.bind (x := modify _)
      (fun s => keepsContainers_define s scope name value) fun _ => spares_pure _
  | @assignment scope h ident value =>
    exact (spares_assignName scope ident value).bind fun _ => spares_pure value
  | unary op value span => exact spares_lift span _
  | binary op left right span => exact spares_lift span _
  | index h key span => exact spares_get_bind fun s => spares_lift span _
  | @builtin b arguments h span => exact spares_callBuiltin b arguments span

/-- Going on with what is at hand changes no container that is there. -/
theorem keepsContainers_goes {front : Front} {m : Machine} (h : Goes front store active m) :
    store.KeepsContainers m.store := by
  cases h with
  | turns | asks | beginsNode => exact .refl store
  | answers hx => exact keeps_answer (spares_single hx store)
  | @inserts scope table value key span =>
    exact keeps_proceed (spares_insertPair table key value span store) fun _ s => .refl s
  | @leavesReturn scope value => exact keepsContainers_putReturn store scope (some value)
  | beginsBlock => exact .of_eq rfl rfl

end Steps

/-- **One step changes no container that is there, or it is an index assignment.** -/
theorem keepsContainers_or_assigns {m m' : Machine} (h : m.step = some m') :
    m.store.KeepsContainers m'.store ∨ ∃ place value, Assigns m place value m' := by
  cases does_of_step h with
  | goes hat hgoes => exact .inl (keepsContainers_goes hgoes)
  | @assignsElement key value target span frames store active =>
    cases hplace : store.place target key with
    | error cause =>
      refine .inl ?_
      rw [bind_error (assignElement_of_error hplace span)]
      exact .refl store
    | ok place =>
      refine .inr ⟨place, value, ?_⟩
      rw [bind_ok (assignElement_of_ok hplace span)]
      exact .assign span frames active hplace
  | enters hget harity hlt henter => exact .inl ((spares_enter _ _).of_ok henter)
  | @leavesBody value scope frames store =>
    exact .inl (keeps_proceed (spares_takeReturn scope store) fun _ s => .refl s)
  | @endsTopLevel value scope rest frames store =>
    refine .inl (keeps_proceed (spares_takeReturn scope store) fun returned s => ?_)
    cases returned <;> exact .refl s
  | refuses | beginsTopLevel | drops => exact .inl (.refl _)

/-! ### New containers -/

/-- A machine holds nothing that does not exist, neither do the objects of its store: all that
there is has been made from nothing. -/
def Sound (m : Machine) : Prop :=
  m.Within .empty fun _ => False

/-- No object goes away in a step. -/
theorem has_step {m m' : Machine} (h : m.step = some m') {o : Object} (ho : m.store.Has o) :
    m'.store.Has o := by
  have hwithin : m.Within m.store fun _ => True :=
    ⟨.start _ _, fun _ _ => Store.allowed_of_root trivial,
      fun _ _ _ _ => Store.allowed_of_root trivial⟩
  exact (hwithin.step h).store.has o ho

/-- **A step makes a container** and hands it on. Nothing else refers to it, neither an object nor a
frame. -/
structure Makes (m m' : Machine) (o : Object) : Prop where
  container : o.IsContainer
  gives : ∃ value, m'.task = .give value ∧ value.objects = [o]
  new : ¬ m.store.Has o
  has : m'.store.Has o
  unreferred : ∀ other, o ∉ m'.store.children other
  unheld : ∀ frame ∈ m'.frames, o ∉ frame.objects

theorem not_has_empty (o : Object) : ¬ Store.empty.Has o := by
  cases o <;> simp [Store.Has, Store.empty, EmptyCollection.emptyCollection, Heap.empty, Heap.get?]

theorem allowed_empty_iff {now : Store} {o : Object} :
    Store.Allowed .empty (fun _ => False) now o ↔ now.Has o := by
  constructor
  · rintro (⟨_, hroot, _⟩ | ⟨-, hhas⟩)
    · exact hroot.elim
    · exact hhas
  · exact fun hhas => .inr ⟨not_has_empty o, hhas⟩

theorem children_eq_nil {now : Store} {o : Object} (h : ¬ now.Has o) : now.children o = [] := by
  cases o <;> simp_all [Store.Has, Store.children]

/-- What an object refers to exists. -/
theorem has_of_mem_children {now : Store} (h : Store.Confined .empty (fun _ => False) now)
    {o o' : Object} (ho' : o' ∈ now.children o) : now.Has o' := by
  by_cases ho : now.Has o
  · exact allowed_empty_iff.1 (h.closed o (allowed_empty_iff.2 ho) o' ho')
  · rw [children_eq_nil ho] at ho'
    cases ho'

/-- Nothing in a closed store refers to what does not exist. -/
theorem confined_empty_iff {now : Store} :
    Store.Confined .empty (fun _ => False) now ↔ now.Closed where
  mp h _ _ ho' := has_of_mem_children h ho'
  mpr h :=
    { has := fun o ho => absurd ho (not_has_empty o)
      closed := fun _ _ o' ho' => allowed_empty_iff.2 (h _ o' ho')
      same := fun o ho _ => absurd ho (not_has_empty o) }

theorem closed_addRoot : Store.empty.addRoot.2.Closed := by
  have hstart := Store.Confined.start .empty fun _ => False
  have hadds : Store.empty.AddsAt _ Store.empty.addRoot.2 := Store.addsAt_addScope .root none
  refine confined_empty_iff.1 (hstart.change hadds.toChangesAt (hstart.allowed_new hadds) ?_)
  intro o ho
  have hchildren : Store.empty.addRoot.2.children _ = [] := Store.children_addScope .root none
  rw [hchildren] at ho
  cases ho

section Makes

variable {m : Machine} (hm : m.Sound)
include hm

theorem makes_of_adds {o : Object} {value : Value} {after : Store} (hcontainer : o.IsContainer)
    (hvalue : value.objects = [o]) (hadds : m.store.AddsAt o after)
    (hchildren : ∀ o' ∈ after.children o, m.store.Has o') :
    m.Makes ⟨.give value, m.frames, after, m.active⟩ o where
  container := hcontainer
  gives := ⟨value, rfl, hvalue⟩
  new := hadds.new
  has := hadds.has_target
  unreferred other hmem := by
    refine hadds.new ?_
    by_cases hother : other = o
    · exact hchildren o (hother ▸ hmem)
    · rw [(hadds.same other hother).children_eq] at hmem
      exact has_of_mem_children hm.store hmem
  unheld frame hframe hmem :=
    hadds.new (allowed_empty_iff.1 (hm.frames frame hframe o hmem))

theorem makes_addArray {elements : List Value}
    (helements : ∀ o ∈ elements.flatMap Value.objects, m.store.Has o) :
    m.Makes ⟨.give (m.store.addArray elements).1, m.frames, (m.store.addArray elements).2, m.active⟩
      (.array m.store.arrays.fresh) := by
  refine makes_of_adds hm trivial rfl (Store.addsAt_addArray elements) ?_
  rw [Store.children_addArray]
  exact helements

theorem makes_addMap {table : Table} (htable : ∀ o ∈ table.objects, m.store.Has o) :
    m.Makes ⟨.give (m.store.addMap table).1, m.frames, (m.store.addMap table).2, m.active⟩
      (.map m.store.maps.fresh) := by
  refine makes_of_adds hm trivial rfl (Store.addsAt_addMap table) ?_
  rw [Store.children_addMap]
  exact htable

/-- What a task holds exists. -/
theorem Sound.has_of_mem_task {o : Object} (ho : o ∈ m.task.objects) : m.store.Has o :=
  allowed_empty_iff.1 (hm.task o ho)

/-- An index assignment gives one place a value, in a container that there is. -/
theorem Assigns.assigned {place : Place} {value : Value} {m' : Machine}
    (h : m.Assigns place value m') : m.store.Assigned place value m'.store := by
  cases h with
  | @assign store target key value place span frames active hplace =>
    refine Store.assigned_write hplace ?_ value
    have hframe := hm.frames (.assignedKey value target span) List.mem_cons_self
    refine allowed_empty_iff.1 (hframe _ (List.mem_append_right _ ?_))
    rcases Store.place_cases hplace with ⟨ref, position, rfl, rfl⟩ | ⟨ref, k, rfl, rfl⟩ <;>
      exact List.mem_cons_self

/-- **An array literal makes an array** of the values of its elements. -/
theorem makes_array {scope : Ref .scope} {values : List Value}
    (htask : m.task = .items .array scope values []) :
    ∃ m' ref, m.step = some m' ∧ m.Makes m' (.array ref) ∧
      m'.store.arrays.get? ref = some values := by
  have hheld {o : Object} (ho : o ∈ values.flatMap Value.objects) : m.store.Has o := by
    refine hm.has_of_mem_task ?_
    rw [htask]
    exact List.mem_cons_of_mem _ ho
  have hstep : m.step = some ⟨.give (m.store.addArray values).1, m.frames,
      (m.store.addArray values).2, m.active⟩ := by
    obtain ⟨task, frames, store, active⟩ := m
    obtain rfl : task = .items .array scope values [] := htask
    rfl
  exact ⟨_, _, hstep, makes_addArray hm fun o => hheld,
    Heap.get?_alloc_fresh m.store.arrays values⟩

/-- **A map literal makes a map** of its pairs. -/
theorem makes_map {scope : Ref .scope} {table : Table} (htask : m.task = .pairs scope table []) :
    ∃ m' ref, m.step = some m' ∧ m.Makes m' (.map ref) ∧
      m'.store.maps.get? ref = some table := by
  have hheld {o : Object} (ho : o ∈ table.objects) : m.store.Has o := by
    refine hm.has_of_mem_task ?_
    rw [htask]
    exact List.mem_cons_of_mem _ ho
  have hstep : m.step = some ⟨.give (m.store.addMap table).1, m.frames,
      (m.store.addMap table).2, m.active⟩ := by
    obtain ⟨task, frames, store, active⟩ := m
    obtain rfl : task = .pairs scope table [] := htask
    rfl
  exact ⟨_, _, hstep, makes_addMap hm fun o => hheld, Heap.get?_alloc_fresh m.store.maps table⟩

end Makes

/-- `rest` and `push` give a new array, or nothing that refers to an object. -/
theorem result_of_rest_or_push {b : Builtin} (hb : b = .rest ∨ b = .push) {s : Store}
    {arguments : List Value} {value : Value} (h : b.result s arguments = .ok (.value value)) :
    value.objects = [] := by
  unfold Builtin.result at h
  split at h
  · simp at hb
  · simp at hb
  · simp at hb
  · obtain ⟨elements, -, htail⟩ := exists_of_map_eq_ok h
    cases elements with
    | nil =>
      cases htail
      rfl
    | cons first elements => cases htail
  · obtain ⟨elements, -, hpush⟩ := exists_of_map_eq_ok h
    cases hpush
  · cases h

/-- **An array that `rest` or `push` gives is made by it**, and holds the elements themselves. -/
theorem makes_builtin {m m' : Machine} (hm : m.Sound) {b : Builtin} (hb : b = .rest ∨ b = .push)
    {arguments : List Value} {span callee : Span}
    (htask : m.task = .call (.builtin b) arguments span callee) (hstep : m.step = some m')
    {value : Value} (hgives : m'.task = .give value) {o : Object} (ho : o ∈ value.objects) :
    ∃ ref elements, o = .array ref ∧ m.Makes m' (.array ref) ∧
      b.result m.store arguments = .ok (.newArray elements) ∧
      m'.store.arrays.get? ref = some elements := by
  have hcall : m.step = some (answer m.frames m.active (callBuiltin b arguments span m.store)) := by
    obtain ⟨task, frames, store, active⟩ := m
    obtain rfl : task = .call (.builtin b) arguments span callee := htask
    rfl
  obtain rfl := Option.some.inj (hstep.symm.trans hcall)
  have hargument {o : Object} (ho : o ∈ arguments.flatMap Value.objects) : m.store.Has o := by
    refine hm.has_of_mem_task ?_
    rw [htask]
    exact List.mem_append_right _ ho
  -- The step is the builtin itself, so it has failed, given a value that it was given, or made an
  -- array.
  rw [callBuiltin, get_bind] at hgives ⊢
  cases hresult : b.result m.store arguments with
  | error cause =>
    rw [hresult] at hgives
    cases hgives
  | ok result =>
    rw [hresult] at hgives
    cases result with
    | value given =>
      cases hgives
      rw [result_of_rest_or_push hb hresult] at ho
      cases ho
    | newArray elements =>
      cases hgives
      obtain rfl := List.mem_singleton.1 ho
      refine ⟨_, elements, rfl, makes_addArray hm fun o ho => ?_, rfl,
        Heap.get?_alloc_fresh m.store.arrays elements⟩
      -- The elements are arguments of the call or elements of an argument.
      rcases Builtin.mem_objects_result hresult ho with ho | ⟨ref, href, ho⟩
      · exact hargument ho
      · obtain ⟨v, hv, ho⟩ := List.mem_flatMap.1 ho
        exact has_of_mem_children hm.store (Store.mem_children_elements hv ho)

/-- A machine makes containers anew: for a literal of an array or a map, and for an array that
`rest` or `push` gives. They hold the values that they are made of, which may be containers that are
there already. -/
structure MakesAnew (m : Machine) : Prop where
  array : ∀ scope values, m.task = .items .array scope values [] →
    ∃ m' ref, m.step = some m' ∧ m.Makes m' (.array ref) ∧ m'.store.arrays.get? ref = some values
  map : ∀ scope table, m.task = .pairs scope table [] →
    ∃ m' ref, m.step = some m' ∧ m.Makes m' (.map ref) ∧ m'.store.maps.get? ref = some table
  builtin : ∀ b arguments span callee, b = .rest ∨ b = .push →
    m.task = .call (.builtin b) arguments span callee → ∀ m' value o, m.step = some m' →
    m'.task = .give value → o ∈ value.objects → ∃ ref elements, o = .array ref ∧
      m.Makes m' (.array ref) ∧ b.result m.store arguments = .ok (.newArray elements) ∧
      m'.store.arrays.get? ref = some elements

theorem Sound.makesAnew {m : Machine} (hm : m.Sound) : m.MakesAnew where
  array _ _ htask := makes_array hm htask
  map _ _ htask := makes_map hm htask
  builtin _ _ _ _ hb htask _ _ _ hstep hgives ho := makes_builtin hm hb htask hstep hgives ho

end Machine

end Script

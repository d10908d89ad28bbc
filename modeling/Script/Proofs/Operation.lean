import Script.Proofs.Store.Places

/-!
# What operations give

An operator gives an integer, a truth value or a string. A built-in function gives null, the length
of its argument, or what was at hand: an argument, or an element of an array among the arguments.

* `UnaryOp.hashable_apply`, `BinaryOp.hashable_apply`: what operators give;
* `Builtin.mem_values_result`: what built-in functions give;
* `Builtin.mem_objects_result`: what that refers to.
-/

namespace Script

/-! ### Operators -/

theorem hashable_exactly {n : Int} {value : Value} (h : exactly n = .ok value) :
    value.Hashable := by
  rw [exactly] at h
  split at h
  · cases h
    exact .inl rfl
  · cases h

/-- An operator in front of a value gives an integer or a truth value. -/
theorem UnaryOp.hashable_apply {op : UnaryOp} {operand value : Value}
    (h : op.apply operand = .ok value) : value.Hashable := by
  unfold UnaryOp.apply at h
  split at h
  · cases h
    exact .inl rfl
  · exact hashable_exactly h
  · cases h
    exact .inr (.inl rfl)
  · cases h

theorem BinaryOp.hashable_onIntegers {op : BinaryOp} {left right : Integer} {value : Value}
    (h : op.onIntegers left right = .ok value) : value.Hashable := by
  unfold BinaryOp.onIntegers at h
  cases op with
  | divide =>
    dsimp only at h
    split at h
    · cases h
    · exact hashable_exactly h
  | add | subtract | multiply => exact hashable_exactly h
  | _ =>
    cases h
    exact .inr (.inl rfl)

/-- An operator between values gives an integer, a truth value or a string. -/
theorem BinaryOp.hashable_apply {op : BinaryOp} {left right value : Value}
    (h : op.apply left right = .ok value) : value.Hashable := by
  unfold BinaryOp.apply at h
  split at h
  · exact hashable_onIntegers h
  · cases op <;> cases h <;> exact .inr (.inl rfl)
  · cases op with
    | add =>
      cases h
      exact .inr (.inr rfl)
    | _ => cases h <;> exact .inr (.inl rfl)
  · split at h <;> cases h

/-! ### Built-in functions -/

namespace Builtin

/-- What a result holds. -/
def Result.values : Result → List Value
  | .value v => [v]
  | .newArray elements => elements

/-- What a result refers to. -/
def Result.objects : Result → List Object
  | .value v => v.objects
  | .newArray elements => elements.flatMap Value.objects

theorem Result.objects_eq (result : Result) :
    result.objects = result.values.flatMap Value.objects := by
  cases result with
  | value v => exact (List.flatMap_singleton ..).symm
  | newArray elements => rfl

theorem eq_array_of_elementsOf {b : Builtin} {store : Store} {argument : Value} {es : List Value}
    (h : b.elementsOf store argument = .ok es) :
    ∃ ref, argument = .array ref ∧ store.elements ref = es := by
  cases argument with
  | array ref => exact ⟨ref, rfl, Except.ok.inj h⟩
  | _ => cases h

theorem hashable_length {store : Store} {argument value : Value}
    (h : length store argument = .ok value) : value.Hashable := by
  cases argument with
  | array ref => exact hashable_exactly h
  | string text => exact hashable_exactly h
  | _ => cases h

theorem mem_values_tail {elements : List Value} {v : Value} (hv : v ∈ (tail elements).values) :
    v = .null ∨ v ∈ elements := by
  cases elements with
  | nil => exact .inl (List.mem_singleton.1 hv)
  | cons first rest => exact .inr (List.mem_cons_of_mem _ hv)

theorem eq_null_or_mem {elements : List Value} {found : Option Value}
    (hfound : ∀ v, found = some v → v ∈ elements) :
    found.getD .null = .null ∨ found.getD .null ∈ elements := by
  cases found with
  | none => exact .inl rfl
  | some v => exact .inr (hfound v rfl)

variable {b : Builtin} {store : Store} {arguments : List Value} {result : Result}

/-- **A built-in function gives what was at hand**, unless it gives null or a length. -/
theorem mem_values_result {v : Value} (h : b.result store arguments = .ok result)
    (hv : v ∈ result.values) :
    v = .null ∨ v.Hashable ∨ v ∈ arguments ∨
      ∃ ref, .array ref ∈ arguments ∧ v ∈ store.elements ref := by
  -- all functions but the first look into an array, which is their first argument
  have hinside {ref : Ref .array} {more : List Value}
      (hv : v = .null ∨ v ∈ store.elements ref) : v = .null ∨ v.Hashable ∨
        v ∈ .array ref :: more ∨ ∃ r, .array r ∈ .array ref :: more ∧ v ∈ store.elements r :=
    hv.imp_right fun hmem => .inr (.inr ⟨ref, List.mem_cons_self, hmem⟩)
  unfold Builtin.result at h
  split at h
  · obtain ⟨value, hvalue, rfl⟩ := exists_of_map_eq_ok h
    obtain rfl := List.mem_singleton.1 hv
    exact .inr (.inl (hashable_length hvalue))
  · obtain ⟨elements, helements, rfl⟩ := exists_of_map_eq_ok h
    obtain ⟨ref, rfl, rfl⟩ := eq_array_of_elementsOf helements
    obtain rfl := List.mem_singleton.1 hv
    exact hinside (eq_null_or_mem fun _ => List.mem_of_mem_head?)
  · obtain ⟨elements, helements, rfl⟩ := exists_of_map_eq_ok h
    obtain ⟨ref, rfl, rfl⟩ := eq_array_of_elementsOf helements
    obtain rfl := List.mem_singleton.1 hv
    exact hinside (eq_null_or_mem fun _ => List.mem_of_mem_getLast?)
  · obtain ⟨elements, helements, rfl⟩ := exists_of_map_eq_ok h
    obtain ⟨ref, rfl, rfl⟩ := eq_array_of_elementsOf helements
    exact hinside (mem_values_tail hv)
  · obtain ⟨elements, helements, rfl⟩ := exists_of_map_eq_ok h
    obtain ⟨ref, rfl, rfl⟩ := eq_array_of_elementsOf helements
    rcases List.mem_append.1 hv with hv | hv
    · exact hinside (.inr hv)
    · exact .inr (.inr (.inl (List.mem_cons_of_mem _ hv)))
  · cases h

/-- What a built-in function gives refers to nothing but what its arguments, or the elements of
an argument, refer to. -/
theorem mem_objects_result {o : Object} (h : b.result store arguments = .ok result)
    (ho : o ∈ result.objects) : o ∈ arguments.flatMap Value.objects ∨
      ∃ ref, .array ref ∈ arguments ∧ o ∈ (store.elements ref).flatMap Value.objects := by
  rw [Result.objects_eq] at ho
  obtain ⟨v, hv, ho⟩ := List.mem_flatMap.1 ho
  rcases mem_values_result h hv with rfl | hhashable | hv | ⟨ref, href, hv⟩
  · cases ho
  · rw [hhashable.objects_eq_nil] at ho
    cases ho
  · exact .inl (List.mem_flatMap.2 ⟨v, hv, ho⟩)
  · exact .inr ⟨ref, href, List.mem_flatMap.2 ⟨v, hv, ho⟩⟩

end Builtin

end Script

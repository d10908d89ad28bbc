import Script.Proofs.Store.Ownership
import Mathlib.Logic.Function.Basic

/-!
# Stores up to empty blocks

One store *collapses* into another if the second is what is left of it once some empty blocks are
taken out: blocks that bind nothing and hold no return. What was inside of such a block is then
inside of the scope around it. Arrays, maps and functions keep their places, and a function that was
made in an empty block is made in the scope around. Nothing can be seen of a block that is taken
out: names, owners and pending returns are the same from every scope.

* `Store.Collapse`: the scopes that stay, and what each scope becomes;
* `Collapse.chain_image`: the chain of a scope without what is taken out;
* `Collapse.lookup?_image`, `Collapse.owner?_image`, `Collapse.pendingReturn?_image`: what is seen;
* `Collapse.Extends`: the scopes that there were become what they did;
* `Collapse.modify`, `Collapse.addScope`, `Collapse.addClosure`: both stores change in the same way;
* `Collapse.addBlock`: an empty block more, which is taken out.
-/

namespace Script

theorem Heap.fresh_eq {kind : ObjectKind} {α β : Type} {a : Heap kind α} {b : Heap kind β}
    (h : ∀ ref, (a.get? ref).isSome = (b.get? ref).isSome) : a.fresh = b.fresh := by
  have hle (i : Nat) : a.cells.size ≤ i ↔ b.cells.size ≤ i := by
    have hi : a.cells[i]?.isSome = b.cells[i]?.isSome := h ⟨i⟩
    rw [← Array.getElem?_eq_none_iff, ← Array.getElem?_eq_none_iff, ← Option.isNone_iff_eq_none,
      ← Option.isNone_iff_eq_none, ← Option.isSome_eq_false_iff, ← Option.isSome_eq_false_iff, hi]
  have ha := hle a.cells.size
  have hb := hle b.cells.size
  rw [fresh, fresh, Ref.mk.injEq]
  omega

/-- A scope with other bindings and another pending return. -/
def Scope.change (bindings : Assoc String Value → Assoc String Value)
    (returned : Option Value → Option Value) (scope : Scope) : Scope :=
  { scope with bindings := bindings scope.bindings, returned := returned scope.returned }

namespace Store

theorem hasScope_modify {s : Store} {ref other : Ref .scope} {f : Scope → Scope} :
    HasScope { s with scopes := s.scopes.modify ref f } other ↔ s.HasScope other := by
  rw [hasScope_iff, hasScope_iff, Heap.size_modify]

theorem hasScope_addScope_iff {s : Store} {ref : Ref .scope} {kind : ScopeKind}
    {parent : Option (Ref .scope)} :
    (s.addScope kind parent).2.HasScope ref ↔ ref = s.scopes.fresh ∨ s.HasScope ref := by
  unfold HasScope
  rw [get?_addScope]
  by_cases hfresh : ref = s.scopes.fresh
  · simp [hfresh]
  · simp [hfresh]

/-- **A collapse of a store into another**, which does without some empty blocks of the first. -/
structure Collapse (s t : Store) where
  /-- What a scope becomes. A block that is taken out becomes what the scope around it becomes. -/
  image : Ref .scope → Ref .scope
  /-- Whether a scope stays. -/
  kept : Ref .scope → Bool
  wellFormed : s.WellFormed
  wellFormed_target : t.WellFormed
  arrays_eq : t.arrays = s.arrays
  maps_eq : t.maps = s.maps
  get?_closure : ∀ ref, t.closures.get? ref =
    (s.closures.get? ref).map fun closure => { closure with scope := image closure.scope }
  get?_kept : ∀ {ref scope}, s.scopes.get? ref = some scope → kept ref = true →
    t.scopes.get? (image ref) = some { scope with parent := scope.parent.map image }
  get?_dropped : ∀ {ref scope}, s.scopes.get? ref = some scope → kept ref = false →
    ∃ parent, scope = ⟨.block, some parent, ∅, none⟩ ∧ image ref = image parent
  injective : ∀ {a b}, s.HasScope a → s.HasScope b → kept a = true → kept b = true →
    image a = image b → a = b
  covers : ∀ {r}, t.HasScope r → ∃ ref, s.HasScope ref ∧ kept ref = true ∧ image ref = r

variable {s t s' t' s'' t'' : Store} {ref : Ref .scope} {name : String}

namespace Collapse

/-- A store that is left as it is. -/
def refl (h : s.WellFormed) : Collapse s s where
  image := id
  kept _ := true
  wellFormed := h
  wellFormed_target := h
  arrays_eq := rfl
  maps_eq := rfl
  get?_closure ref := by
    cases s.closures.get? ref <;> rfl
  get?_kept {ref scope} hs _ := by
    obtain ⟨kind, parent, bindings, returned⟩ := scope
    cases parent <;> exact hs
  get?_dropped _ h := by cases h
  injective _ _ _ _ h := h
  covers {r} h := ⟨r, h, rfl, rfl⟩

/-! ### What is seen of a store -/

section Seen

variable (c : Collapse s t)

theorem hasScope_image : ∀ ref, s.HasScope ref → t.HasScope (c.image ref) := by
  refine c.wellFormed.induction fun ref scope hs ih => ?_
  cases hkept : c.kept ref with
  | true => exact ⟨_, c.get?_kept hs hkept⟩
  | false =>
    obtain ⟨parent, rfl, himage⟩ := c.get?_dropped hs hkept
    rw [himage]
    exact ih parent rfl (c.wellFormed.hasScope_parent hs rfl)

/-- **The chain of a scope** is what is left of its chain before. -/
theorem chain_image : ∀ ref, s.HasScope ref →
    t.chain (c.image ref) = ((s.chain ref).filter c.kept).map c.image := by
  refine c.wellFormed.induction fun ref scope hs ih => ?_
  -- A scope that is kept keeps its place in the chain; one that is dropped has the image of its
  -- parent.
  cases hkept : c.kept ref with
  | true =>
    have hs' := c.get?_kept hs hkept
    cases hp : scope.parent with
    | none =>
      rw [chain_of_no_parent hs hp, chain_of_no_parent hs' (by simp [hp]),
        List.filter_cons_of_pos hkept]
      rfl
    | some parent =>
      have hparent := c.wellFormed.hasScope_parent hs hp
      rw [chain_of_parent c.wellFormed hs hp,
        chain_of_parent c.wellFormed_target hs' (by simp [hp]; rfl), ih parent hp hparent,
        List.filter_cons_of_pos hkept]
      rfl
  | false =>
    obtain ⟨parent, rfl, himage⟩ := c.get?_dropped hs hkept
    have hparent := c.wellFormed.hasScope_parent hs rfl
    rw [himage, chain_of_parent c.wellFormed hs rfl, ih parent rfl hparent,
      List.filter_cons_of_neg (by simp [hkept])]

theorem binding?_image (href : s.HasScope ref) (hkept : c.kept ref = true) :
    t.binding? (c.image ref) name = s.binding? ref name := by
  obtain ⟨scope, hs⟩ := href
  rw [binding?, binding?, hs, c.get?_kept hs hkept]
  rfl

theorem binding?_of_dropped (hkept : c.kept ref = false) : s.binding? ref name = none := by
  rw [binding?]
  cases hs : s.scopes.get? ref with
  | none => rfl
  | some scope =>
    obtain ⟨parent, rfl, -⟩ := c.get?_dropped hs hkept
    rfl

theorem kept_of_binding? {value : Value} (h : s.binding? ref name = some value) :
    c.kept ref = true := by
  cases hkept : c.kept ref with
  | true => rfl
  | false =>
    rw [c.binding?_of_dropped hkept] at h
    cases h

/-- **The owner of a name** becomes its owner. -/
theorem owner?_image : ∀ ref, s.HasScope ref →
    t.owner? (c.image ref) name = (s.owner? ref name).map c.image := by
  refine c.wellFormed.induction fun ref scope hs ih => ?_
  have hparent? {parent : Ref .scope} (hp : scope.parent = some parent) :
      s.parent? ref = some parent := by
    rw [parent?, hs]
    exact hp
  -- A dropped scope binds nothing, so its parent decides on both sides.
  cases hkept : c.kept ref with
  | false =>
    obtain ⟨parent, rfl, himage⟩ := c.get?_dropped hs hkept
    rw [himage, owner?_of_parent c.wellFormed (c.binding?_of_dropped hkept) (hparent? rfl)]
    exact ih parent rfl (c.wellFormed.hasScope_parent hs rfl)
  | true =>
    have hbinding : t.binding? (c.image ref) name = s.binding? ref name :=
      c.binding?_image ⟨scope, hs⟩ hkept
    have hs' := c.get?_kept hs hkept
    cases hbound : s.binding? ref name with
    | some value =>
      rw [owner?_of_bound hbound, owner?_of_bound (hbinding.trans hbound)]
      rfl
    | none =>
      have hbound' := hbinding.trans hbound
      cases hp : scope.parent with
      | none =>
        have hnone : t.parent? (c.image ref) = none := by
          rw [parent?, hs']
          simp [hp]
        rw [owner?_of_no_parent hbound (by rw [parent?, hs]; exact hp),
          owner?_of_no_parent hbound' hnone]
        rfl
      | some parent =>
        have hsome : t.parent? (c.image ref) = some (c.image parent) := by
          rw [parent?, hs']
          simp [hp]
        rw [owner?_of_parent c.wellFormed hbound (hparent? hp),
          owner?_of_parent c.wellFormed_target hbound' hsome]
        exact ih parent hp (c.wellFormed.hasScope_parent hs hp)

/-- An owner stays, as it binds a name. -/
theorem kept_of_owner? {owner : Ref .scope} (href : s.HasScope ref)
    (h : s.owner? ref name = some owner) : s.HasScope owner ∧ c.kept owner = true := by
  obtain ⟨value, hvalue⟩ := (owns_of_owner? c.wellFormed ref href h).exists_binding
  obtain ⟨scope, hs, -⟩ := Option.bind_eq_some_iff.1 hvalue
  exact ⟨⟨scope, hs⟩, c.kept_of_binding? hvalue⟩

/-- **Names have the same values**, seen from every scope. -/
theorem lookup?_image (href : s.HasScope ref) :
    t.lookup? (c.image ref) name = s.lookup? ref name := by
  rw [lookup?, lookup?, c.owner?_image ref href]
  cases howner : s.owner? ref name with
  | none => rfl
  | some owner =>
    obtain ⟨hscope, hkept⟩ := c.kept_of_owner? href howner
    exact c.binding?_image hscope hkept

/-- The scope that keeps the returns of a scope stays, and keeps them. -/
theorem boundary_image : ∀ ref, s.HasScope ref →
    t.boundary (c.image ref) = c.image (s.boundary ref) ∧ c.kept (s.boundary ref) = true := by
  refine c.wellFormed.induction fun ref scope hs ih => ?_
  -- A dropped scope is a block, which passes its returns on.
  cases hkept : c.kept ref with
  | false =>
    obtain ⟨parent, rfl, himage⟩ := c.get?_dropped hs hkept
    rw [himage, boundary_of_passes c.wellFormed hs rfl rfl]
    exact ih parent rfl (c.wellFormed.hasScope_parent hs rfl)
  | true =>
    have hs' := c.get?_kept hs hkept
    cases hpass : scope.passesReturn with
    | false =>
      have hpass' :
          Scope.passesReturn { scope with parent := scope.parent.map c.image } = false := by
        simpa [Scope.passesReturn] using hpass
      rw [boundary_of_not_passes hs hpass, boundary_of_not_passes hs' hpass']
      exact ⟨rfl, hkept⟩
    | true =>
      obtain ⟨parent, hp⟩ := exists_parent_of_passes hpass
      have hpass' :
          Scope.passesReturn { scope with parent := scope.parent.map c.image } = true := by
        simpa [Scope.passesReturn] using hpass
      rw [boundary_of_passes c.wellFormed hs hpass hp,
        boundary_of_passes c.wellFormed_target hs' hpass' (by simp [hp]; rfl)]
      exact ih parent hp (c.wellFormed.hasScope_parent hs hp)

/-- **The same return is pending** for every scope. -/
theorem pendingReturn?_image (href : s.HasScope ref) :
    t.pendingReturn? (c.image ref) = s.pendingReturn? ref := by
  obtain ⟨hboundary, hkept⟩ := c.boundary_image ref href
  obtain ⟨scope, hs⟩ := hasScope_boundary c.wellFormed ref href
  rw [pendingReturn?, pendingReturn?, hboundary, hs, c.get?_kept hs hkept]
  rfl

include c

theorem elements_eq (array : Ref .array) : t.elements array = s.elements array := by
  rw [elements, elements, c.arrays_eq]

theorem table_eq (map : Ref .map) : t.table map = s.table map := by
  rw [table, table, c.maps_eq]

/-- Indices point to the same places. -/
theorem place_eq (target key : Value) : t.place target key = s.place target key := by
  cases target with
  | array array => rw [place, place, c.elements_eq]
  | _ => rfl

theorem index_eq (target key : Value) : t.index target key = s.index target key := by
  rw [index, index, c.place_eq]
  cases s.place target key with
  | error cause => rfl
  | ok place =>
    cases place with
    | element array position => simp only [c.elements_eq]
    | entry map k => simp only [c.table_eq]

/-- Built-in functions give the same. -/
theorem result_eq (b : Builtin) (arguments : List Value) :
    b.result t arguments = b.result s arguments := by
  have hlength (argument : Value) : Builtin.length t argument = Builtin.length s argument := by
    cases argument with
    | array array => rw [Builtin.length, Builtin.length, c.elements_eq]
    | _ => rfl
  have helements (b : Builtin) (argument : Value) :
      b.elementsOf t argument = b.elementsOf s argument := by
    cases argument with
    | array array => rw [Builtin.elementsOf, Builtin.elementsOf, c.elements_eq]
    | _ => rfl
  unfold Builtin.result
  simp only [hlength, helements]

theorem fresh_closures : t.closures.fresh = s.closures.fresh :=
  Heap.fresh_eq fun ref => by rw [c.get?_closure, Option.isSome_map]

end Seen

/-! ### Extensions -/

/-- **A collapse extends another** if what the scopes of the first become has not changed. -/
structure Extends (c : Collapse s t) (c' : Collapse s' t') : Prop where
  grows : s.Grows s'
  image_eq : ∀ {ref}, s.HasScope ref → c'.image ref = c.image ref
  kept_eq : ∀ {ref}, s.HasScope ref → c'.kept ref = c.kept ref

theorem Extends.refl (c : Collapse s t) : c.Extends c :=
  ⟨.refl s, fun _ => rfl, fun _ => rfl⟩

theorem Extends.trans {c : Collapse s t} {c' : Collapse s' t'} {c'' : Collapse s'' t''}
    (h : c.Extends c') (h' : c'.Extends c'') : c.Extends c'' where
  grows := h.grows.trans h'.grows
  image_eq href := (h'.image_eq (h.grows.hasScope href)).trans (h.image_eq href)
  kept_eq href := (h'.kept_eq (h.grows.hasScope href)).trans (h.kept_eq href)

/-- A scope becomes a scope of the second store. -/
structure Sends (c : Collapse s t) (r r' : Ref .scope) : Prop where
  hasScope : s.HasScope r
  image_eq : c.image r = r'

/-- A scope that stays becomes a scope of the second store. -/
structure Keeps (c : Collapse s t) (r r' : Ref .scope) : Prop extends Sends c r r' where
  kept : c.kept r = true

section Extends

variable {c : Collapse s t} {c' : Collapse s' t'} {r r' : Ref .scope}

theorem Extends.sends (h : c.Extends c') (hr : c.Sends r r') : c'.Sends r r' :=
  ⟨h.grows.hasScope hr.hasScope, (h.image_eq hr.hasScope).trans hr.image_eq⟩

theorem Extends.keeps (h : c.Extends c') (hr : c.Keeps r r') : c'.Keeps r r' :=
  ⟨h.sends hr.toSends, (h.kept_eq hr.hasScope).trans hr.kept⟩

theorem Keeps.isReturning_eq (hr : c.Keeps r r') : t.isReturning r' = s.isReturning r := by
  obtain ⟨⟨hscope, rfl⟩, -⟩ := hr
  rw [isReturning, isReturning, c.pendingReturn?_image hscope]

end Extends

/-! ### The same change in both stores -/

/-- New contents of arrays and maps, the same in both stores. -/
def ofContents (c : Collapse s t) (hs : s'.scopes = s.scopes) (ht : t'.scopes = t.scopes)
    (hsc : s'.closures = s.closures) (htc : t'.closures = t.closures)
    (harrays : t'.arrays = s'.arrays) (hmaps : t'.maps = s'.maps) : Collapse s' t' where
  image := c.image
  kept := c.kept
  wellFormed := wellFormed_of_eq c.wellFormed hs hsc
  wellFormed_target := wellFormed_of_eq c.wellFormed_target ht htc
  arrays_eq := harrays
  maps_eq := hmaps
  get?_closure := by
    rw [hsc, htc]
    exact c.get?_closure
  get?_kept h := by
    rw [ht]
    exact c.get?_kept (hs ▸ h)
  get?_dropped h := c.get?_dropped (hs ▸ h)
  injective := by
    unfold HasScope
    rw [hs]
    exact c.injective
  covers := by
    unfold HasScope
    rw [hs, ht]
    exact c.covers

theorem extends_ofContents (c : Collapse s t) (hs : s'.scopes = s.scopes)
    (ht : t'.scopes = t.scopes) (hsc : s'.closures = s.closures) (htc : t'.closures = t.closures)
    (harrays : t'.arrays = s'.arrays) (hmaps : t'.maps = s'.maps) :
    c.Extends (c.ofContents hs ht hsc htc harrays hmaps) :=
  ⟨.of_scopes_eq hs, fun _ => rfl, fun _ => rfl⟩

/-- A scope that stays is changed in its bindings and its pending return. -/
def modify (c : Collapse s t) (href : s.HasScope ref) (hkept : c.kept ref = true)
    (bindings : Assoc String Value → Assoc String Value) (returned : Option Value → Option Value) :
    Collapse { s with scopes := s.scopes.modify ref (Scope.change bindings returned) }
      { t with scopes := t.scopes.modify (c.image ref) (Scope.change bindings returned) } where
  image := c.image
  kept := c.kept
  wellFormed := wellFormed_modify c.wellFormed ref (fun _ => rfl) fun _ => rfl
  wellFormed_target := wellFormed_modify c.wellFormed_target _ (fun _ => rfl) fun _ => rfl
  arrays_eq := c.arrays_eq
  maps_eq := c.maps_eq
  get?_closure := c.get?_closure
  get?_kept {other scope} h hother := by
    rw [Heap.get?_modify] at h ⊢
    by_cases heq : ref = other
    · subst heq
      rw [if_pos rfl] at h ⊢
      obtain ⟨scope', hs, rfl⟩ := Option.map_eq_some_iff.1 h
      rw [c.get?_kept hs hkept]
      rfl
    · rw [if_neg heq] at h
      have hne : c.image ref ≠ c.image other :=
        fun himage => heq (c.injective href ⟨scope, h⟩ hkept hother himage)
      rw [if_neg hne]
      exact c.get?_kept h hother
  get?_dropped {other scope} h hother := by
    rw [Heap.get?_modify] at h
    by_cases heq : ref = other
    · -- the scope that is changed stays
      rw [← heq, hkept] at hother
      cases hother
    · rw [if_neg heq] at h
      exact c.get?_dropped h hother
  injective ha hb := c.injective (hasScope_modify.1 ha) (hasScope_modify.1 hb)
  covers hr := by
    obtain ⟨other, hother, himage⟩ := c.covers (hasScope_modify.1 hr)
    exact ⟨other, hasScope_modify.2 hother, himage⟩

theorem extends_modify (c : Collapse s t) (href : s.HasScope ref) (hkept : c.kept ref = true)
    (bindings : Assoc String Value → Assoc String Value) (returned : Option Value → Option Value) :
    c.Extends (c.modify href hkept bindings returned) :=
  ⟨grows_modify ref (fun _ => rfl) fun _ => rfl, fun _ => rfl, fun _ => rfl⟩

/-- A name is bound in a scope that stays. -/
theorem exists_define (c : Collapse s t) {r r' : Ref .scope} (hr : c.Keeps r r') (name : String)
    (value : Value) :
    ∃ c' : Collapse (s.define r name value) (t.define r' name value), c.Extends c' := by
  obtain ⟨⟨hscope, rfl⟩, hkept⟩ := hr
  exact ⟨c.modify hscope hkept (·.insert name value) id, c.extends_modify hscope hkept _ _⟩

/-- A return is left pending or taken, for any scope: the one that keeps it stays. -/
theorem exists_putReturn (c : Collapse s t) {r r' : Ref .scope} (hr : c.Sends r r')
    (value : Option Value) :
    ∃ c' : Collapse (s.putReturn r value) (t.putReturn r' value), c.Extends c' := by
  obtain ⟨hscope, rfl⟩ := hr
  obtain ⟨hboundary, hkept⟩ := c.boundary_image r hscope
  have hb := hasScope_boundary c.wellFormed r hscope
  rw [putReturn, putReturn, hboundary]
  exact ⟨c.modify hb hkept id fun _ => value, c.extends_modify hb hkept _ _⟩

/-- A function is made, in a scope and in what that scope becomes. -/
def addClosure (c : Collapse s t) {closure : Closure} (hscope : s.HasScope closure.scope) :
    Collapse (s.addClosure closure).2
      (t.addClosure { closure with scope := c.image closure.scope }).2 where
  image := c.image
  kept := c.kept
  wellFormed := wellFormed_addClosure c.wellFormed hscope
  wellFormed_target := wellFormed_addClosure c.wellFormed_target (c.hasScope_image _ hscope)
  arrays_eq := c.arrays_eq
  maps_eq := c.maps_eq
  get?_closure ref := by
    simp only [Store.addClosure, Heap.get?_alloc, c.fresh_closures, c.get?_closure]
    split <;> rfl
  get?_kept := c.get?_kept
  get?_dropped := c.get?_dropped
  injective := c.injective
  covers := c.covers

theorem extends_addClosure (c : Collapse s t) {closure : Closure}
    (hscope : s.HasScope closure.scope) : c.Extends (c.addClosure hscope) :=
  ⟨.of_scopes_eq rfl, fun _ => rfl, fun _ => rfl⟩

/-! ### New scopes -/

section NewScopes

variable (c : Collapse s t)

/-- What scopes become when a new one becomes a scope. -/
def imageWith (r : Ref .scope) : Ref .scope → Ref .scope :=
  Function.update c.image s.scopes.fresh r

theorem imageWith_fresh (r : Ref .scope) : c.imageWith r s.scopes.fresh = r :=
  Function.update_self ..

theorem imageWith_of_hasScope (r : Ref .scope) (href : s.HasScope ref) :
    c.imageWith r ref = c.image ref :=
  Function.update_of_ne (ne_fresh_of_hasScope href) ..

/-- Which scopes stay when there is a new one. -/
def keptWith (stays : Bool) : Ref .scope → Bool :=
  Function.update c.kept s.scopes.fresh stays

theorem keptWith_fresh (stays : Bool) : c.keptWith stays s.scopes.fresh = stays :=
  Function.update_self ..

theorem keptWith_of_hasScope (stays : Bool) (href : s.HasScope ref) :
    c.keptWith stays ref = c.kept ref :=
  Function.update_of_ne (ne_fresh_of_hasScope href) ..

theorem get?_closure_imageWith (r : Ref .scope) (ref : Ref .closure) :
    t.closures.get? ref =
      (s.closures.get? ref).map fun closure =>
        { closure with scope := c.imageWith r closure.scope } := by
  rw [c.get?_closure]
  cases hclosure : s.closures.get? ref with
  | none => rfl
  | some closure =>
    rw [Option.map_some, Option.map_some,
      c.imageWith_of_hasScope r (c.wellFormed.closure_scope hclosure)]

theorem map_imageWith (r : Ref .scope) {scope : Scope} (hs : s.scopes.get? ref = some scope) :
    scope.parent.map (c.imageWith r) = scope.parent.map c.image := by
  cases hp : scope.parent with
  | none => rfl
  | some parent =>
    rw [Option.map_some, Option.map_some,
      c.imageWith_of_hasScope r (c.wellFormed.hasScope_parent hs hp)]

theorem get?_kept_imageWith (r : Ref .scope) {scope : Scope} (hs : s.scopes.get? ref = some scope)
    (hkept : c.kept ref = true) : t.scopes.get? (c.imageWith r ref) =
      some { scope with parent := scope.parent.map (c.imageWith r) } := by
  rw [c.imageWith_of_hasScope r ⟨scope, hs⟩, c.map_imageWith r hs]
  exact c.get?_kept hs hkept

theorem get?_dropped_imageWith (r : Ref .scope) {scope : Scope}
    (hs : s.scopes.get? ref = some scope) (hkept : c.kept ref = false) :
    ∃ parent, scope = ⟨.block, some parent, ∅, none⟩ ∧
      c.imageWith r ref = c.imageWith r parent := by
  obtain ⟨parent, rfl, himage⟩ := c.get?_dropped hs hkept
  refine ⟨parent, rfl, ?_⟩
  rw [c.imageWith_of_hasScope r ⟨_, hs⟩,
    c.imageWith_of_hasScope r (c.wellFormed.hasScope_parent hs rfl), himage]

theorem injective_imageWith (r : Ref .scope) (stays : Bool) {a b : Ref .scope} (ha : s.HasScope a)
    (hb : s.HasScope b) (hkepta : c.keptWith stays a = true) (hkeptb : c.keptWith stays b = true)
    (himage : c.imageWith r a = c.imageWith r b) : a = b := by
  rw [c.keptWith_of_hasScope stays ha] at hkepta
  rw [c.keptWith_of_hasScope stays hb] at hkeptb
  rw [c.imageWith_of_hasScope r ha, c.imageWith_of_hasScope r hb] at himage
  exact c.injective ha hb hkepta hkeptb himage

/-- A new scope becomes a scope of its own: no other becomes the same. -/
theorem imageWith_ne_fresh (href : s.HasScope ref) :
    c.imageWith t.scopes.fresh ref ≠ t.scopes.fresh := by
  rw [c.imageWith_of_hasScope _ href]
  exact ne_fresh_of_hasScope (c.hasScope_image ref href)

/-- A scope is made inside of another, and inside of what that one becomes. It stays. -/
def addScope (kind : ScopeKind) {parent : Ref .scope} (hparent : s.HasScope parent) :
    Collapse (s.addScope kind (some parent)).2 (t.addScope kind (some (c.image parent))).2 where
  image := c.imageWith t.scopes.fresh
  kept := c.keptWith true
  wellFormed := wellFormed_addScope c.wellFormed kind (by rintro p ⟨⟩; exact hparent)
  wellFormed_target := wellFormed_addScope c.wellFormed_target kind
    (by rintro p ⟨⟩; exact c.hasScope_image parent hparent)
  arrays_eq := c.arrays_eq
  maps_eq := c.maps_eq
  get?_closure := c.get?_closure_imageWith _
  get?_kept {ref scope} h hkept := by
    rw [get?_addScope] at h ⊢
    by_cases hfresh : ref = s.scopes.fresh
    · rw [if_pos hfresh] at h
      obtain rfl := Option.some.inj h
      rw [hfresh, c.imageWith_fresh, if_pos rfl]
      simp only [Option.map_some, c.imageWith_of_hasScope _ hparent]
    · rw [if_neg hfresh] at h
      rw [c.keptWith_of_hasScope true ⟨scope, h⟩] at hkept
      rw [if_neg (c.imageWith_ne_fresh ⟨scope, h⟩)]
      exact c.get?_kept_imageWith _ h hkept
  get?_dropped {ref scope} h hkept := by
    rw [get?_addScope] at h
    by_cases hfresh : ref = s.scopes.fresh
    · rw [hfresh, c.keptWith_fresh] at hkept
      cases hkept
    · rw [if_neg hfresh] at h
      rw [c.keptWith_of_hasScope true ⟨scope, h⟩] at hkept
      exact c.get?_dropped_imageWith _ h hkept
  injective {a b} ha hb hkepta hkeptb himage := by
    rcases hasScope_addScope_iff.1 ha with rfl | ha <;>
      rcases hasScope_addScope_iff.1 hb with rfl | hb
    · rfl
    · rw [c.imageWith_fresh] at himage
      exact absurd himage.symm (c.imageWith_ne_fresh hb)
    · rw [c.imageWith_fresh] at himage
      exact absurd himage (c.imageWith_ne_fresh ha)
    · exact c.injective_imageWith _ true ha hb hkepta hkeptb himage
  covers {r} hr := by
    rcases hasScope_addScope_iff.1 hr with rfl | hr
    · exact ⟨s.scopes.fresh, hasScope_addScope_iff.2 (.inl rfl), c.keptWith_fresh true,
        c.imageWith_fresh _⟩
    · obtain ⟨ref, href, hkept, himage⟩ := c.covers hr
      exact ⟨ref, hasScope_addScope_iff.2 (.inr href),
        (c.keptWith_of_hasScope true href).trans hkept,
        (c.imageWith_of_hasScope _ href).trans himage⟩

theorem extends_addScope (kind : ScopeKind) {parent : Ref .scope} (hparent : s.HasScope parent) :
    c.Extends (c.addScope kind hparent) :=
  ⟨grows_addScope kind _, c.imageWith_of_hasScope _, c.keptWith_of_hasScope _⟩

theorem keeps_addScope (kind : ScopeKind) {parent : Ref .scope} (hparent : s.HasScope parent) :
    (c.addScope kind hparent).Keeps s.scopes.fresh t.scopes.fresh :=
  ⟨⟨hasScope_addScope kind _, c.imageWith_fresh _⟩, c.keptWith_fresh true⟩

/-- A block is made inside of a scope, which the second store does without. -/
def addBlock {parent : Ref .scope} (hparent : s.HasScope parent) :
    Collapse (s.addScope .block (some parent)).2 t where
  image := c.imageWith (c.image parent)
  kept := c.keptWith false
  wellFormed := wellFormed_addScope c.wellFormed .block (by rintro p ⟨⟩; exact hparent)
  wellFormed_target := c.wellFormed_target
  arrays_eq := c.arrays_eq
  maps_eq := c.maps_eq
  get?_closure := c.get?_closure_imageWith _
  get?_kept {ref scope} h hkept := by
    rw [get?_addScope] at h
    by_cases hfresh : ref = s.scopes.fresh
    · rw [hfresh, c.keptWith_fresh] at hkept
      cases hkept
    · rw [if_neg hfresh] at h
      rw [c.keptWith_of_hasScope false ⟨scope, h⟩] at hkept
      exact c.get?_kept_imageWith _ h hkept
  get?_dropped {ref scope} h hkept := by
    rw [get?_addScope] at h
    by_cases hfresh : ref = s.scopes.fresh
    · rw [if_pos hfresh] at h
      obtain rfl := Option.some.inj h
      refine ⟨parent, rfl, ?_⟩
      rw [hfresh, c.imageWith_fresh, c.imageWith_of_hasScope _ hparent]
    · rw [if_neg hfresh] at h
      rw [c.keptWith_of_hasScope false ⟨scope, h⟩] at hkept
      exact c.get?_dropped_imageWith _ h hkept
  injective {a b} ha hb hkepta hkeptb himage := by
    rcases hasScope_addScope_iff.1 ha with rfl | ha
    · rw [c.keptWith_fresh] at hkepta
      cases hkepta
    · rcases hasScope_addScope_iff.1 hb with rfl | hb
      · rw [c.keptWith_fresh] at hkeptb
        cases hkeptb
      · exact c.injective_imageWith _ false ha hb hkepta hkeptb himage
  covers {r} hr := by
    obtain ⟨ref, href, hkept, himage⟩ := c.covers hr
    exact ⟨ref, hasScope_addScope_iff.2 (.inr href),
      (c.keptWith_of_hasScope false href).trans hkept,
      (c.imageWith_of_hasScope _ href).trans himage⟩

theorem extends_addBlock {parent : Ref .scope} (hparent : s.HasScope parent) :
    c.Extends (c.addBlock hparent) :=
  ⟨grows_addScope .block _, c.imageWith_of_hasScope _, c.keptWith_of_hasScope _⟩

theorem sends_addBlock {parent : Ref .scope} (hparent : s.HasScope parent) :
    (c.addBlock hparent).Sends s.scopes.fresh (c.image parent) :=
  ⟨hasScope_addScope .block _, c.imageWith_fresh _⟩

end NewScopes

end Collapse

end Store

end Script

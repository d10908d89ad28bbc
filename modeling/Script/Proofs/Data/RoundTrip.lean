import Script.Proofs.Data.Printed
import Script.Proofs.Eval.Returns

/-!
# Data printed and read again

The text of data is a program of one expression, and what it evaluates to is the same data again.
The evaluation makes an array or a map for each one that is written and changes nothing else: two
places that shared an array no longer do, but equality of values does not look at that.

* `Eval.Makes`: an evaluation makes data;
* `Data.makes_expression`: an expression that writes data makes it;
* `Store.text_reads_back`: what is printed and then evaluated is equal to what was printed.
-/

namespace Script

/-! ### Stores that gain arrays and maps -/

namespace Store

variable {a b c : Store}

/-- A store gains arrays and maps, and nothing that there was changes. -/
structure Gains (before after : Store) : Prop where
  scopes : after.scopes = before.scopes
  containers : before.KeepsContainers after

theorem Gains.refl (a : Store) : a.Gains a :=
  ⟨rfl, .refl a⟩

theorem Gains.trans (hab : a.Gains b) (hbc : b.Gains c) : a.Gains c :=
  ⟨hbc.scopes.trans hab.scopes, hab.containers.trans hbc.containers⟩

theorem gains_addArray (a : Store) (elements : List Value) : a.Gains (a.addArray elements).2 :=
  ⟨rfl, (addsAt_addArray elements).keepsContainers⟩

theorem gains_addMap (a : Store) (table : Table) : a.Gains (a.addMap table).2 :=
  ⟨rfl, (addsAt_addMap table).keepsContainers⟩

theorem Gains.pendingReturn?_eq (hab : a.Gains b) (scope : Ref .scope) :
    b.pendingReturn? scope = a.pendingReturn? scope := by
  simp only [pendingReturn?, boundary, chain, hab.scopes]

end Store

/-! ### Literals -/

namespace Eval

variable {call : Caller} {scope : Ref .scope}

/-- An evaluation makes data, wherever it starts. -/
def Makes (x : Eval Value) (d : Data) : Prop :=
  ∀ s, ∃ v s', x s = .ok v s' ∧ s.Gains s' ∧ s'.Holds d v

/-- An expression that writes an atom has it as its value. -/
theorem expression_key {k : Key} (hk : k.Readable) {e : Expr} (he : e.erase = k.literal)
    (s : Store) : expression call scope e s = .ok k.toValue s := by
  cases k with
  | integer value =>
    rw [Key.literal] at he
    -- a negative integer is written as the negation of its opposite, which is an integer literal
    split at he
    · cases e with
      | unary op operand span =>
        cases operand with
        | integer number span' =>
          cases he
          have hexact : exactly (-Int64.toInt (-value)) = .ok (.integer value) := by
            rw [exactly, Integer.toInt_neg hk, Int.neg_neg, Integer.ofInt?_eq_some_iff.2 rfl]
          have hnumber : expression call scope (.integer (-value) span') s =
              .ok (.integer (-value)) s := rfl
          rw [expression, bind_ok hnumber, UnaryOp.apply, hexact]
          rfl
        | _ => cases he
      | _ => cases he
    · cases e with
      | integer =>
        cases he
        rfl
      | _ => cases he
  | boolean value =>
    cases e with
    | boolean =>
      cases he
      rfl
    | _ => cases he
  | string value =>
    cases e with
    | string =>
      cases he
      rfl
    | _ => cases he

theorem insertPair_key (table : Table) (k : Key) (v : Value) (span : Span) :
    insertPair table k.toValue v span = return Assoc.insert table k v := by
  cases k <;> rfl

/-- The elements of an array are made one after another. -/
theorem expressions_literals {ds : List Data}
    (h : ∀ d ∈ ds, ∀ e : Expr, e.erase = d.literal → Makes (expression call scope e) d)
    {es : List Expr} (hes : es.map Expr.erase = ds.map Data.literal) (s : Store) :
    ∃ vs s', expressions call scope es s = .ok vs s' ∧ s.Gains s' ∧
      List.Forall₂ s'.Holds ds vs := by
  induction ds generalizing es s with
  | nil =>
    obtain rfl := List.map_eq_nil_iff.1 hes
    exact ⟨[], s, rfl, .refl s, .nil⟩
  | cons d ds ih =>
    obtain ⟨e, es, rfl, he, hes⟩ := List.map_eq_cons_iff.1 hes
    obtain ⟨hfirst, hothers⟩ := List.forall_mem_cons.1 h
    obtain ⟨v, s', hv, hgains, hd⟩ := hfirst e he s
    obtain ⟨vs, s'', hvs, hgains', hds⟩ := ih hothers hes s'
    refine ⟨v :: vs, s'', ?_, hgains.trans hgains', .cons (hd.of_keeps hgains'.containers) hds⟩
    rw [expressions, bind_ok hv, bind_ok hvs]
    rfl

/-- The pairs of a map are made one after another, and put behind those that there are if no key
is written twice. -/
theorem pairs_literals {ps : List (Atom × Data)}
    (h : ∀ p ∈ ps, ∀ e : Expr, e.erase = p.2.literal → Makes (expression call scope e) p.2)
    {entries : List (Expr × Expr)}
    (hentries : entries.map Expr.erasePair = ps.map fun p => (p.1.key.literal, p.2.literal))
    (table : Table) (hkeys : (table.keys ++ ps.map (·.1.key)).Nodup) (s : Store) :
    ∃ table' pairs' s', pairs call scope table entries s = .ok table' s' ∧ s.Gains s' ∧
      table'.pairs = table.pairs ++ pairs' ∧ List.Forall₂ s'.HoldsPair ps pairs' := by
  -- the table grows with each pair, so the claim is about any table whose keys are not written
  induction ps generalizing entries table s with
  | nil =>
    obtain rfl := List.map_eq_nil_iff.1 hentries
    exact ⟨table, [], s, rfl, .refl s, (List.append_nil _).symm, .nil⟩
  | cons p ps ih =>
    obtain ⟨a, d⟩ := p
    obtain ⟨⟨key, value⟩, entries, rfl, hentry, hentries⟩ := List.map_eq_cons_iff.1 hentries
    obtain ⟨hkey, hvalue⟩ := Prod.ext_iff.1 hentry
    obtain ⟨hfirst, hothers⟩ := List.forall_mem_cons.1 h
    rw [List.map_cons, List.append_cons] at hkeys
    have hnew : a.key ∉ table.keys := fun hmem =>
      (List.nodup_append.1 (List.nodup_append.1 hkeys).1).2.2 _ hmem _
        (List.mem_singleton_self _) rfl
    obtain ⟨v, s', hv, hgains, hd⟩ := hfirst value hvalue s
    have hinsert : (Assoc.insert table a.key v).keys = table.keys ++ [a.key] := by
      rw [Assoc.keys_insert, if_neg hnew]
    obtain ⟨table', pairs', s'', htable, hgains', hpairs, hps⟩ :=
      ih hothers hentries (Assoc.insert table a.key v) (hinsert ▸ hkeys) s'
    refine ⟨table', (a.key, v) :: pairs', s'', ?_, hgains.trans hgains', ?_,
      .cons (.pair (hd.of_keeps hgains'.containers)) hps⟩
    · rw [pairs, bind_ok (expression_key a.readable hkey s), bind_ok hv, insertPair_key]
      exact htable
    · rw [hpairs, Assoc.pairs_insert_of_not_mem v hnew, ← List.append_cons]

end Eval

/-! ### Data -/

namespace Data

variable {call : Caller} {scope : Ref .scope} {store : Store} {v : Value}

/-- **An expression that writes data makes it**, if there is such a value at all: a map whose keys
are written twice has lost pairs. -/
theorem makes_expression {d : Data} (h : store.Holds d v) {e : Expr} (he : e.erase = d.literal) :
    Eval.Makes (Eval.expression call scope e) d := by
  induction d generalizing v e with
  | atom a =>
    intro s
    exact ⟨_, s, Eval.expression_key a.readable he s, .refl s, .atom a⟩
  | array ds ih =>
    cases h with
    | array href hds =>
      cases e with
      | array es span =>
        intro s
        have hes : es.map Expr.erase = ds.map literal := by
          rw [← Expr.eraseAll_eq_map, ← literals_eq_map]
          injection he
        obtain ⟨vs, s', hvs, hgains, hds'⟩ := Eval.expressions_literals (fun d hd e he => by
          obtain ⟨w, -, hw⟩ := exists_right_of_forall₂ hds d hd
          exact ih d hd hw he) hes s
        refine ⟨_, (s'.addArray vs).2, bind_ok hvs, hgains.trans (s'.gains_addArray vs), ?_⟩
        refine .array (s'.arrays.get?_alloc_fresh vs) (hds'.imp fun _ _ hd => ?_)
        exact hd.of_keeps (s'.gains_addArray vs).containers
      | _ => cases he
  | map ps ih =>
    have hkeys := h.nodup_keys
    cases h with
    | map href hperm hps =>
      cases e with
      | map entries span =>
        intro s
        have hentries : entries.map Expr.erasePair =
            ps.map fun p => (p.1.key.literal, p.2.literal) := by
          rw [← Expr.erasePairs_eq_map, ← pairLiterals_eq_map]
          injection he
        obtain ⟨table', pairs', s', htable, hgains, hpairs, hps'⟩ :=
          Eval.pairs_literals (fun p hp e he => by
            obtain ⟨q, -, hq⟩ := exists_right_of_forall₂ hps p (hperm.mem_iff.2 hp)
            obtain ⟨hw⟩ := hq
            exact ih _ hp hw he) hentries ∅ hkeys s
        refine ⟨_, (s'.addMap table').2, bind_ok htable, hgains.trans (s'.gains_addMap table'), ?_⟩
        have hall : List.Forall₂ s'.HoldsPair ps table'.pairs := hpairs ▸ hps'
        -- the pairs are made in the order they are written in, not in that of the value printed
        refine .map (s'.maps.get?_alloc_fresh table') (.refl ps) (hall.imp fun _ _ hp => ?_)
        exact hp.of_keeps (s'.gains_addMap table').containers
      | _ => cases he

end Data

namespace Store

/-- **Data is read back from its text.** A value that is data is printed as it is written down; and
however the pairs of its maps are ordered, the text is a program of one expression, unless it nests
too deep. Wherever no return is pending, that program evaluates to a value that is equal to the one
that was printed. All bindings stay as they are, and so do all arrays and maps that there were. -/
theorem text_reads_back {store : Store} {v : Value} (hv : store.IsData v) :
    (∃ d, store.Holds d v ∧ store.text v = d.text) ∧
      ∀ d, store.Holds d v →
        (∀ error, Program.parse d.text = .error error → error.cause ≠ .nestingTooDeep) →
        ∃ e span, Program.parse d.text = .ok ⟨[.expression e], span⟩ ∧
          ∀ scope, store.pendingReturn? scope = none →
            ∃ w after, Eval.program scope ⟨[.expression e], span⟩ store = .ok w after ∧
              after.equal v w = true ∧ after.equal w v = true ∧
              after.scopes = store.scopes ∧ store.KeepsContainers after := by
  obtain ⟨d, hd⟩ := hv
  refine ⟨hd.exists_text, fun d hd hdeep => ?_⟩
  rcases d.parse_literal with ⟨-, error, herror, hcause⟩ | ⟨e, span, hparse, herase⟩
  · exact absurd hcause (hdeep error herror)
  refine ⟨e, span, hparse, fun scope hscope => ?_⟩
  obtain ⟨w, after, hw, hgains, hdw⟩ := Data.makes_expression hd herase store
  -- the new arrays and maps change no scope, so nothing is pending afterwards either
  have hnone := (hgains.pendingReturn?_eq scope).trans hscope
  have hdv := hd.of_keeps hgains.containers
  refine ⟨w, after, ?_, hdv.equal hdw, hdw.equal hdv, hgains.scopes, hgains.containers⟩
  have hnode : Eval.node (Eval.callWithin maxCalls) scope (.expression e) store = .ok w after := hw
  show Eval.topLevel _ scope .null [.expression e] store = _
  rw [Eval.topLevel, bind_ok hnode, bind_ok (Eval.takeReturn_of_none hnone)]
  rfl

/-- An array with one other array at two places, and between them a map that holds it as well. The
pairs of the map are printed in another order than they were made in. -/
theorem text_reads_back_shared : ∃ (store : Store) (d : Data) (scope : Ref .scope),
    store.Holds d (.array ⟨1⟩) ∧ d.text = "[[-7], \x7b3: [-7], \"\\t\": true\x7d, [-7]]" ∧
      (∀ error, Program.parse d.text = .error error → error.cause ≠ .nestingTooDeep) ∧
      store.pendingReturn? scope = none ∧
      (∃ d', store.Holds d' (.array ⟨1⟩) ∧ store.text (.array ⟨1⟩) = d'.text) ∧
      ∃ e span w after, Program.parse d.text = .ok ⟨[.expression e], span⟩ ∧
        Eval.program scope ⟨[.expression e], span⟩ store = .ok w after ∧
        after.equal (.array ⟨1⟩) w = true ∧ after.equal w (.array ⟨1⟩) = true ∧
        after.scopes = store.scopes ∧ store.KeepsContainers after := by
  let inner : List Value := [.integer (-7)]
  let outer : List Value := [.array ⟨0⟩, .map ⟨0⟩, .array ⟨0⟩]
  let table : Table := ⟨[(.string "\t", .boolean true), (.integer 3, .array ⟨0⟩)], by decide⟩
  let store : Store := ⟨⟨#[⟨.root, none, ∅, none⟩]⟩, ⟨#[inner, outer]⟩, ⟨#[table]⟩, ∅⟩
  let seven : Atom := ⟨.integer (-7), by rw [Key.Readable]; decide⟩
  let three : Atom := ⟨.integer 3, by rw [Key.Readable]; decide⟩
  let tab : Atom := ⟨.string "\t", List.forall_mem_singleton.2 (.inr (.inr (.inr (.inr rfl))))⟩
  let yes : Atom := ⟨.boolean true, trivial⟩
  let shared : Data := .array [.atom seven]
  let d : Data := .array [shared, .map [(three, shared), (tab, .atom yes)], shared]
  have hshared : store.Holds shared (.array ⟨0⟩) := .array rfl (.cons (.atom seven) .nil)
  have hmap : store.Holds (.map [(three, shared), (tab, .atom yes)]) (.map ⟨0⟩) :=
    .map rfl (.swap _ _ []) (.cons (.pair (.atom yes)) (.cons (.pair hshared) .nil))
  have hd : store.Holds d (.array ⟨1⟩) :=
    .array rfl (.cons hshared (.cons hmap (.cons hshared .nil)))
  have htext : d.text = "[[-7], \x7b3: [-7], \"\\t\": true\x7d, [-7]]" := by rfl
  have hdeep (error : ParseError) (h : Program.parse d.text = .error error) :
      error.cause ≠ .nestingTooDeep := by
    rcases d.parse_literal with ⟨hmany, -⟩ | ⟨e, span, hparse, -⟩
    · exact absurd hmany (by decide)
    · rw [hparse] at h
      cases h
  obtain ⟨hprinted, hread⟩ := text_reads_back ⟨d, hd⟩
  obtain ⟨e, span, hparse, heval⟩ := hread d hd hdeep
  obtain ⟨w, after, hw⟩ := heval ⟨0⟩ rfl
  exact ⟨store, d, ⟨0⟩, hd, htext, hdeep, rfl, hprinted, e, span, w, after, hparse, hw⟩

end Store

end Script

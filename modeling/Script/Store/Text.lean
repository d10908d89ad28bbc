import Script.Store
import Script.Syntax.Printer

/-!
# Values as text

A value is printed as it would be written in a script, as far as it can be written. The pairs of a
map are printed in the order of their keys' texts. An array or map that is met again while it is
being printed is printed as dots between its brackets, so values that contain themselves have finite
texts.

* `Store.text`: the text of a value.
* `Closure.debug`, `Builtin.debug`: functions by what they are made of.
-/

namespace Script

/-- A key as text. -/
def Key.text : Key → String
  | integer value => value.text
  | boolean value => if value then "true" else "false"
  | string value => Text.quote value

/-- An array or a map. -/
inductive Container where
  | array (ref : Ref .array)
  | map (ref : Ref .map)
deriving DecidableEq, Repr

/-- Puts an item into its place among items that are in the order of their texts. -/
def insertBy {α : Type} (text : α → String) (x : α) : List α → List α
  | [] => [x]
  | next :: rest => if text x < text next then x :: next :: rest else next :: insertBy text x rest

/-- Items in the order of their texts, character by character. -/
def sortBy {α : Type} (text : α → String) (xs : List α) : List α :=
  xs.foldl (fun sorted x => insertBy text x sorted) []

/-- Pairs in the order of their first texts. -/
def sortByText (pairs : List (String × String)) : List (String × String) :=
  sortBy Prod.fst pairs

namespace Store

/-- A value as text, while the containers in `around` are being printed around it, and no more
than `n` further ones inside one another. -/
def textWithin (store : Store) : Nat → List Container → Value → String
  | _, _, .null => ""
  | _, _, .integer value => value.text
  | _, _, .boolean value => if value then "true" else "false"
  | _, _, .string value => Text.quote value
  | _, _, .function _ => "fn"
  | _, _, .builtin _ => "builtin"
  | _, _, .error message => "error: " ++ message
  | 0, _, .array _ => "[...]"
  | 0, _, .map _ => "\x7b...\x7d"
  | n + 1, around, .array ref =>
    if around.contains (.array ref) then "[...]"
    else
      "[" ++ joinWith ", " ((store.elements ref).map (textWithin store n (.array ref :: around)))
        ++ "]"
  | n + 1, around, .map ref =>
    if around.contains (.map ref) then "\x7b...\x7d"
    else
      let pairs := (store.table ref).pairs.map fun (key, value) =>
        (key.text, textWithin store n (.map ref :: around) value)
      "\x7b" ++ joinWith ", " ((sortByText pairs).map fun (key, value) => key ++ ": " ++ value)
        ++ "\x7d"
termination_by structural n => n

/-- A value as text. Containers that are being printed around one another all differ, so their
number bounds how deep they go. -/
def text (store : Store) (value : Value) : String :=
  store.textWithin (store.arrays.size + store.maps.size + 1) [] value

end Store

/-- A function by its parameters. -/
def Closure.debug (closure : Closure) : String :=
  "Function \x7b parameters: [" ++ joinWith ", " (closure.parameters.map Text.quote) ++ "], .. \x7d"

/-- A built-in function by its name. -/
def Builtin.debug (b : Builtin) : String :=
  "Builtin(" ++ b.name ++ ")"

/-- A function by what it is made of; nothing for any other value. -/
def Store.debug? (store : Store) : Value → Option String
  | .function ref => (store.closures.get? ref).map Closure.debug
  | .builtin b => some b.debug
  | _ => none

end Script

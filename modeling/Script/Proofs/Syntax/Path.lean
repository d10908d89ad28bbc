import Script.Proofs.Syntax.Height

/-!
# Paths down a syntax tree

A path leads from a program down to a leaf, over expressions and blocks. The height of a tree, in
whatever way it is counted, bounds what is counted on each of its paths, and no more than that.

* `Subtree.children`: what stands right inside an expression or a block;
* `Program.IsPath`: the paths of a program;
* `Program.height_le_iff`: heights are bounds on paths.
-/

namespace Script

/-- A way down to an expression or a block from what it stands in. -/
inductive Descent where
  /-- To a part that is neither of the others. -/
  | level
  /-- To the first operand of an operator. -/
  | operand
  /-- To the block of an `else if`. -/
  | elseIf
deriving DecidableEq

theorem Descent.length_eq (path : List Descent) :
    path.length = path.count .level + path.count .operand + path.count .elseIf := by
  induction path with
  | nil => rfl
  | cons way path ih =>
    rw [List.length_cons, ih]
    cases way <;> simp <;> omega

/-- An expression or a block of a tree. -/
inductive Subtree where
  | expression (e : Expr)
  | block (b : Block)

/-- The way down to an alternative. -/
def Block.descent (alternative : Block) : Descent :=
  if alternative.isElseIf then .elseIf else .level

/-- The expressions and blocks right inside a node. -/
def Node.children : Node → List (Descent × Subtree)
  | .binding _ value _ => [(.level, .expression value)]
  | .returning none _ => []
  | .returning (some value) _ => [(.level, .expression value)]
  | .conditional condition consequence none _ =>
    [(.level, .expression condition), (.level, .block consequence)]
  | .conditional condition consequence (some alternative) _ =>
    [(.level, .expression condition), (.level, .block consequence),
      (alternative.descent, .block alternative)]
  | .expression value => [(.level, .expression value)]

namespace Subtree

/-- The expressions and blocks right inside an expression or a block. -/
def children : Subtree → List (Descent × Subtree)
  | .expression (.array elements _) => elements.map fun e => (.level, .expression e)
  | .expression (.map pairs _) =>
    pairs.flatMap fun kv => [(.level, .expression kv.1), (.level, .expression kv.2)]
  | .expression (.unary _ operand _) => [(.level, .expression operand)]
  | .expression (.binary _ left right _) =>
    [(.operand, .expression left), (.level, .expression right)]
  | .expression (.assign target value _) =>
    [(.operand, .expression target), (.level, .expression value)]
  | .expression (.index target key _) =>
    [(.operand, .expression target), (.level, .expression key)]
  | .expression (.function _ body _) => [(.level, .block body)]
  | .expression (.call callee arguments _) =>
    (.operand, .expression callee) :: arguments.map fun e => (.level, .expression e)
  | .expression _ => []
  | .block ⟨nodes, _⟩ => nodes.flatMap Node.children

/-- **A path down to a leaf**, as the ways that it takes. -/
inductive IsPath : Subtree → List Descent → Prop where
  | leaf {t} : t.children = [] → IsPath t []
  | down {t way t' path} : (way, t') ∈ t.children → IsPath t' path → IsPath t (way :: path)

/-- The most that is counted on a path below an expression or a block. -/
def height (c : Counting) : Subtree → Nat
  | .expression e => e.height c
  | .block b => b.height c

end Subtree

/-- A path of a program leads from one of its nodes down to a leaf. -/
def Program.IsPath (program : Program) (path : List Descent) : Prop :=
  Subtree.IsPath (.block ⟨program.nodes, program.span⟩) path

namespace Counting

/-- What a way down counts. -/
def weight (c : Counting) : Descent → Nat
  | .level => 1
  | .operand => c.operand
  | .elseIf => c.elseIf

/-- What is counted on a path. -/
def total (c : Counting) : List Descent → Nat
  | [] => 0
  | way :: path => c.weight way + c.total path

variable {c : Counting} {path : List Descent}

theorem total_all : Counting.all.total path = path.length := by
  induction path with
  | nil => rfl
  | cons way path ih =>
    rw [total, ih, List.length_cons]
    cases way <;> exact Nat.add_comm _ _

theorem total_levels : (Counting.mk 0 0).total path = path.count .level := by
  induction path with
  | nil => rfl
  | cons way path ih =>
    rw [total, ih, List.count_cons]
    cases way <;> simp [weight, Nat.add_comm]

end Counting

/-! ### Heights are bounds on paths -/

section Bounds

variable {c : Counting} {n : Nat}

@[simp] theorem Counting.weight_level : c.weight .level = 1 :=
  rfl

@[simp] theorem Counting.weight_operand : c.weight .operand = c.operand :=
  rfl

@[simp] theorem Counting.weight_descent (alternative : Block) :
    c.weight alternative.descent = c.alternative alternative := by
  rw [Block.descent, Counting.alternative]
  split <;> rfl

@[simp] theorem Subtree.height_expression (e : Expr) : height c (.expression e) = e.height c :=
  rfl

@[simp] theorem Subtree.height_block (b : Block) : height c (.block b) = b.height c :=
  rfl

theorem Node.height_le_iff_children {node : Node} :
    node.height c ≤ n ↔ ∀ x ∈ node.children, c.weight x.1 + x.2.height c ≤ n := by
  cases node with
  | binding | expression => simp [height, children]
  | returning value => cases value <;> simp [height, children]
  | conditional condition consequence alternative =>
    cases alternative with
    | none =>
      rw [height, Nat.max_le]
      simp [children]
    | some alternative =>
      rw [height, Nat.max_le, Nat.max_le]
      simp [children, and_assoc]

namespace Subtree

/-- A height is bounded by what bounds the heights of all that stands right inside. -/
theorem height_le_iff_children {t : Subtree} :
    t.height c ≤ n ↔ ∀ x ∈ t.children, c.weight x.1 + x.2.height c ≤ n := by
  rcases t with e | ⟨nodes, span⟩
  · cases e with
    | name | integer | boolean | string => simp [children, Expr.height]
    | array elements => simp [children, Expr.height, Expr.maxHeight_le_iff]
    | map pairs =>
      rw [height_expression, Expr.height, Expr.maxPairHeight_le_iff, children,
        List.forall_mem_flatMap]
      simp
    | unary | function => simp [children, Expr.height]
    | binary | assign | index =>
      rw [height_expression, Expr.height, Nat.max_le]
      simp [children]
    | call callee arguments =>
      rw [height_expression, Expr.height, Nat.max_le, Expr.maxHeight_le_iff]
      simp [children]
  · rw [height_block, Block.height, Node.maxHeight_le_iff, children, List.forall_mem_flatMap]
    exact forall₂_congr fun node _ => Node.height_le_iff_children

variable {t t' : Subtree} {way : Descent} {path : List Descent}

theorem add_height_le (h : (way, t') ∈ t.children) :
    c.weight way + t'.height c ≤ t.height c :=
  height_le_iff_children.1 (Nat.le_refl _) _ h

/-- What stands inside is lower, if everything counts. -/
theorem height_lt (h : (way, t') ∈ t.children) : t'.height .all < t.height .all := by
  have hadd := add_height_le (c := .all) h
  have hpos : 1 ≤ Counting.all.weight way := by cases way <;> exact Nat.le_refl 1
  omega

theorem exists_isPath (t : Subtree) : ∃ path, t.IsPath path := by
  -- down the tree, which gets lower at every step
  induction hn : t.height .all using Nat.strongRecOn generalizing t with
  | ind n ih =>
    cases hchildren : t.children with
    | nil => exact ⟨[], .leaf hchildren⟩
    | cons x rest =>
      obtain ⟨way, t'⟩ := x
      have hx : (way, t') ∈ t.children := by rw [hchildren]; exact List.mem_cons_self
      obtain ⟨path, hpath⟩ := ih _ (hn ▸ height_lt hx) t' rfl
      exact ⟨way :: path, .down hx hpath⟩

theorem total_le_height (h : t.IsPath path) : c.total path ≤ t.height c := by
  induction h with
  | leaf => exact Nat.zero_le _
  | down hx _ ih =>
    have hadd := add_height_le (c := c) hx
    rw [Counting.total]
    omega

/-- **A height is the least bound** on what is counted on the paths. -/
theorem height_le_iff : t.height c ≤ n ↔ ∀ path, t.IsPath path → c.total path ≤ n := by
  refine ⟨fun h path hpath => Nat.le_trans (total_le_height hpath) h, ?_⟩
  induction hm : t.height .all using Nat.strongRecOn generalizing t n with
  | ind m ih =>
    intro h
    refine height_le_iff_children.2 fun x hx => ?_
    obtain ⟨way, t'⟩ := x
    have hbound (path : List Descent) (hpath : t'.IsPath path) :
        c.weight way + c.total path ≤ n := by
      exact h _ (.down hx hpath)
    -- there is a path below, so the way down to it counts no more than the bound
    obtain ⟨path, hpath⟩ := exists_isPath t'
    have hway := hbound path hpath
    have hheight : t'.height c ≤ n - c.weight way := by
      refine ih _ (hm ▸ height_lt hx) rfl fun path hpath => ?_
      have hle := hbound path hpath
      omega
    dsimp only
    omega

end Subtree

theorem Program.height_le_iff {program : Program} :
    program.height c ≤ n ↔ ∀ path, program.IsPath path → c.total path ≤ n :=
  Subtree.height_le_iff (t := .block ⟨program.nodes, program.span⟩)

end Bounds

end Script

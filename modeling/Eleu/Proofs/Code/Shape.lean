import Eleu.Code.Emit
import Eleu.Proofs.Library.Results
import Eleu.Proofs.Scope.Context

/-! # The shape of a frame at each instruction

    Before an instruction is executed, the frame that executes it has a `Shape`: the scopes that
    are open, how many values it has on the stack, and whether a handler awaits a fault. A map from
    offsets to shapes is right for some code if every instruction finds the values it takes and
    leads only to offsets whose shape is what it leaves behind: `Instr.Fits`.

    `Item.shapes` gives the shapes inside the code of an item. That generated code fits them is
    proved in the next module. -/

namespace Eleu

variable {L : Nat → Option Shape} {l : Shape} {n : Nat}

/-! ## Segments -/

/-- The list `xs` stands in the sequence `L` from `n` on. -/
def Segment {α : Type} (L : Nat → Option α) : Nat → List α → Prop
  | _, [] => True
  | n, x :: xs => L n = some x ∧ Segment L (n + 1) xs

namespace Segment

variable {α : Type} {L : Nat → Option α}

@[simp] theorem nil (n : Nat) : Segment L n [] := trivial

@[simp] theorem cons {x : α} {xs : List α} :
    Segment L n (x :: xs) ↔ L n = some x ∧ Segment L (n + 1) xs := Iff.rfl

@[simp] theorem append {xs ys : List α} :
    Segment L n (xs ++ ys) ↔ Segment L n xs ∧ Segment L (n + xs.length) ys := by
  induction xs generalizing n with
  | nil => simp
  | cons x xs ih => simp [ih, and_assoc, Nat.add_assoc, Nat.add_comm 1]

/-- A list stands in the sequence of its own elements. -/
theorem getElem? (xs ys : List α) : Segment ((xs ++ ys)[·]?) xs.length ys := by
  induction ys generalizing xs with
  | nil => trivial
  | cons y ys ih =>
    refine ⟨by simp, ?_⟩
    simpa using ih (xs ++ [y])

end Segment

/-! ## Shapes -/

/-- What is known of a frame before one of its instructions. -/
structure Shape where
  /-- The open scopes. -/
  scopes : Context := []
  /-- The number of values that the frame has on the stack. -/
  height : Nat := 0
  /-- Whether the frame is a call; else it is that of the program. -/
  call : Bool := false
  /-- Whether the frame is known to be that of an initialiser, which returns its instance. -/
  initialises : Bool := false
  /-- The value on top of the stack, if it tells whether a class has a superclass. -/
  flag : Option Bool := none
  /-- The offset of the instruction that installed the handler of the frame, if there is one. -/
  guard : Option Nat := none
  /-- The number of values of the frame that the handler will restore. -/
  floor : Nat := 0

namespace Shape

/-- With `n` more values. -/
def push (l : Shape) (n : Nat) : Shape := { l with height := l.height + n }

/-- With one more name in the innermost scope. -/
def declare (l : Shape) (name : String) : Shape := { l with scopes := l.scopes.declare name }

/-- Inside one more scope. -/
def enter (l : Shape) (site : Site) : Shape := { l with scopes := { site } :: l.scopes }

/-- Outside the `n` innermost scopes. -/
def leave (l : Shape) (n : Nat) : Shape := { l with scopes := l.scopes.drop n }

/-- With one more value, which tells whether a class has a superclass. -/
def flagged (l : Shape) (b : Bool) : Shape := { l.push 1 with flag := some b }

/-- While the handler that the instruction at `n` installed awaits a fault. -/
def guarded (l : Shape) (n : Nat) : Shape := { l with guard := some n, floor := l.height }

/-- A shape between two expressions: nothing but scopes and values. -/
structure Calm (l : Shape) : Prop where
  flag : l.flag = none
  floor : l.floor ≤ l.height

/-- A shape between two items. -/
structure Free (l : Shape) : Prop extends Calm l where
  guard : l.guard = none
  bare : l.floor = 0

/-- Nothing is asked of the value on top where there is no flag. -/
theorem flagless (h : l.flag = none) {P : Bool → Prop} : ∀ b, l.flag = some b → P b :=
  fun _ hb => nomatch h.symm.trans hb

theorem Calm.push (h : l.Calm) (n : Nat) : (l.push n).Calm :=
  ⟨h.flag, Nat.le_trans h.floor (Nat.le_add_right _ _)⟩

theorem Free.push (h : l.Free) (n : Nat) : (l.push n).Free :=
  ⟨h.toCalm.push n, h.guard, h.bare⟩

@[simp] theorem push_zero (l : Shape) : l.push 0 = l := rfl

@[simp] theorem push_push (l : Shape) (m n : Nat) : (l.push m).push n = l.push (m + n) := by
  simp [push, Nat.add_assoc]

/-- The frame has `pops` values on top that an instruction may take. -/
def Takes (l : Shape) (pops : Nat) : Prop := ∃ k : Shape, k.Calm ∧ l = k.push pops

/-- An instruction at `n` that takes `pops` values and leaves `pushes`. -/
def Moves (L : Nat → Option Shape) (n : Nat) (l : Shape) (pops pushes : Nat) : Prop :=
  ∃ k : Shape, k.Calm ∧ l = k.push pops ∧ L (n + 1) = some (k.push pushes)

theorem Moves.takes {pops pushes : Nat} (h : l.Moves L n pops pushes) : l.Takes pops := by
  obtain ⟨k, hk, hl, -⟩ := h
  exact ⟨k, hk, hl⟩

theorem Moves.calm {pops pushes : Nat} (h : l.Moves L n pops pushes) : l.Calm := by
  obtain ⟨k, hk, rfl, -⟩ := h
  exact hk.push pops

end Shape

/-! ## Instructions -/

/-- The operation at `n`, which comes from `span`, finds what it needs in a frame of shape `l`, and the
    shapes of the offsets it leads to are right. -/
def Op.Fits (R : Rules) (L : Nat → Option Shape) (n : Nat) (l : Shape) (span : Span) : Op → Prop
  | .constant v =>
    v.Inert ∧ l.Calm
      ∧ (L (n + 1) = some (l.push 1) ∨ ∃ b, v = .bool b ∧ L (n + 1) = some (l.flagged b))
  | .pop => l.Moves L n 1 0
  | .declareVar name =>
    R.declares l.scopes name
      ∧ ∃ k : Shape, k.Free ∧ l = k.push 1 ∧ L (n + 1) = some (k.declare name)
  | .function decl =>
    R.declares l.scopes decl.name ∧ decl.kind = .function ∧ l.Free
      ∧ R.known decl (l.scopes.declare decl.name)
      ∧ L (n + 1) = some (l.declare decl.name)
  | .class name methods =>
    R.declares l.scopes name ∧ ∃ (k : Shape) (b : Bool),
      (k.Free ∧ k.scopes.Plain) ∧ l = (k.push b.toNat).flagged b ∧ L (n + 1) = some (k.declare name)
        ∧ ∀ m ∈ methods, ¬ Reserved m.name ∧ m.kind = .method
            ∧ R.known m (Context.ofMethods b span (k.scopes.declare name))
  | .lookup name depth =>
    ((∃ pending ident, ident.name = name ∧ R.reads ⟨ident, span, l.scopes, pending⟩ depth)
        ∨ ∃ n, name = "this" ∧ depth = some n ∧ R.returns l.scopes n)
      ∧ l.Moves L n 0 1
  | .assign name depth =>
    ¬ Reserved name
      ∧ (∃ pending ident, ident.name = name ∧ R.writes ⟨ident, span, l.scopes, pending⟩ depth)
      ∧ l.Moves L n 1 1
  | .getField _ => l.Moves L n 1 1
  | .setField _ => l.Moves L n 2 1
  | .getSuper _ depth =>
    (∃ pending ident, R.supers ⟨ident, span, l.scopes, pending⟩ (some depth)) ∧ l.Moves L n 0 1
  | .unary _ => l.Moves L n 1 1
  | .binary _ => l.Moves L n 2 1
  | .logical _ => l.Moves L n 2 1
  | .jump target => l.Calm ∧ L target = some l
  | .jumpIfFalse target => l.Moves L n 1 1 ∧ L target = some l
  | .repeatTest target => l.Moves L n 1 1 ∧ L target = some l
  | .enterScope => l.Free ∧ L (n + 1) = some (l.enter (.block span))
  | .leaveScope count => l.Free ∧ count ≤ l.scopes.blocks ∧ L (n + 1) = some (l.leave count)
  | .call count => l.Moves L n (count + 1) 1
  | .return => l.call = true ∧ ∃ k : Shape, k.Free ∧ l = k.push 1
  | .assert _ => l.Moves L n 1 0
  | .failureBegin _ _ => l.Free ∧ L (n + 1) = some (l.guarded n)
  | .failureEnd =>
    l.guard.isSome ∧ (∃ k : Shape, k.Calm ∧ l = k.push 1)
      ∧ ∃ k : Shape, L (n + 1) = some k ∧ l.height = k.height + 1 ∧ l.scopes = k.scopes

/-- The instruction at `n` has a place, and its operation fits. -/
def Instr.Fits (R : Rules) (L : Nat → Option Shape) (n : Nat) (l : Shape) (i : Instr) : Prop :=
  match i.span with
  | some span => i.op.Fits R L n l span
  | none => False

/-- Code that fits has places. -/
theorem Instr.Fits.placed {R : Rules} {op : Op} {place : Option Span}
    (h : Instr.Fits R L n l ⟨op, place⟩) : ∃ span, place = some span := by
  cases place with
  | none => exact h.elim
  | some span => exact ⟨span, rfl⟩

/-- The instruction at `n` of the code `C` has the neighbour that it needs: a class statement takes the
    flag that was pushed just before it, and in an initialiser a return follows the instruction that
    looks up the instance. -/
def Instr.Joined (C : Nat → Option Instr) (n : Nat) (l : Shape) (i : Instr) : Prop :=
  match i.op with
  | .class _ _ => ∃ (m : Nat) (b : Bool) (span : Span), n = m + 1
      ∧ C m = some ⟨.constant (.bool b), span⟩ ∧ l.flag = some b
  | .return => l.initialises = true → ∃ (m : Nat) (span : Span), n = m + 1
      ∧ C m = some ⟨.lookup "this" (some (l.scopes.length + 1)), span⟩
  | _ => True

/-- A frame of shape `l` before the offset `n` that has a handler is between the instruction that
    installed it and the one that ends the watch, just before the offset to go on at. There, the
    frame will have the shape that it had before. -/
def Guarded (C : Nat → Option Instr) (L : Nat → Option Shape) (n : Nat) (l : Shape) : Prop :=
  ∀ b, l.guard = some b →
    ∃ (k : Shape) (message : Option String) (begins ends : Span) (e : Nat),
      C b = some ⟨.failureBegin message (e + 1), begins⟩ ∧ C e = some ⟨.failureEnd, ends⟩
        ∧ b < n ∧ n ≤ e ∧ k.Free ∧ L b = some k ∧ L (e + 1) = some k
        ∧ l.scopes = k.scopes ∧ l.floor = k.height ∧ l.call = k.call

/-- The code `code` stands at `n` and fits the shapes. -/
def FitsFrom (R : Rules) (C : Nat → Option Instr) (L : Nat → Option Shape) :
    Nat → List Instr → Prop
  | _, [] => True
  | n, i :: is =>
    (∃ l, L n = some l ∧ i.Fits R L n l ∧ i.Joined C n l ∧ Guarded C L n l)
      ∧ FitsFrom R C L (n + 1) is

namespace FitsFrom

variable {R : Rules} {C : Nat → Option Instr} {L : Nat → Option Shape}

@[simp] theorem nil (n : Nat) : FitsFrom R C L n [] := trivial

@[simp] theorem cons {i : Instr} {is : List Instr} :
    FitsFrom R C L n (i :: is) ↔
      (∃ l, L n = some l ∧ i.Fits R L n l ∧ i.Joined C n l ∧ Guarded C L n l)
        ∧ FitsFrom R C L (n + 1) is := Iff.rfl

@[simp] theorem append {xs ys : List Instr} :
    FitsFrom R C L n (xs ++ ys) ↔ FitsFrom R C L n xs ∧ FitsFrom R C L (n + xs.length) ys := by
  induction xs generalizing n with
  | nil => simp
  | cons x xs ih => simp [ih, and_assoc, Nat.add_assoc, Nat.add_comm 1]

/-- Every instruction of the code fits. -/
theorem get {k : Nat} {i : Instr} {is : List Instr} (h : FitsFrom R C L n is) (hi : is[k]? = some
    i) :
    ∃ l, L (n + k) = some l ∧ i.Fits R L (n + k) l ∧ i.Joined C (n + k) l ∧ Guarded C L (n + k) l := by
  induction is generalizing n k with
  | nil => simp at hi
  | cons x xs ih =>
    cases k with
    | zero =>
      simp only [List.getElem?_cons_zero, Option.some.injEq] at hi
      subst hi
      exact h.1
    | succ k =>
      have := ih h.2 (by simpa using hi)
      rwa [Nat.add_right_comm] at this

end FitsFrom

/-! ## The shapes inside the code of a tree -/

mutual

/-- How many values there are on top of the `k` first ones before each instruction of an
    expression. -/
def Expr.heights (k : Nat) : Expr → List Nat
  | .literal _ _ => [k]
  | .list elements _ => exprsHeights k elements ++ [k + elements.length, k + elements.length + 1]
  | .name _ _ => [k]
  | .assign _ value _ => value.heights k ++ [k + 1]
  | .unary _ operand _ => operand.heights k ++ [k + 1]
  | .binary left _ right _ => left.heights k ++ right.heights (k + 1) ++ [k + 2]
  | .logical left _ right _ => left.heights k ++ right.heights (k + 1) ++ [k + 2]
  | .group inner _ => inner.heights k
  | .call callee args _ =>
    exprsHeights k args ++ callee.heights (k + args.length) ++ [k + args.length + 1]
  | .getField object _ _ => object.heights k ++ [k + 1]
  | .setField object _ value _ => object.heights k ++ value.heights (k + 1) ++ [k + 2]
  | .this _ _ => [k]
  | .super _ _ _ => [k]

/-- How many values there are before each instruction of several expressions. -/
def exprsHeights (k : Nat) : List Expr → List Nat
  | [] => []
  | e :: es => e.heights k ++ exprsHeights (k + 1) es

end

/-- The shapes inside the code of an expression. -/
def Expr.shapes (l : Shape) (e : Expr) : List Shape := (e.heights 0).map l.push

/-- The shapes inside the code of an initialiser. -/
def initShapes (l : Shape) : Option Expr → List Shape
  | some e => e.shapes l
  | none => [l]

/-- The shapes inside the code of the increment of a loop. -/
def incrementShapes (l : Shape) : Option Expr → List Shape
  | some e => e.shapes l ++ [l.push 1]
  | none => []

/-- The shapes inside the code that leaves scopes and jumps. -/
def leaveShapes (unwind : Nat) (l : Shape) : List Shape :=
  if unwind = 0 then [l] else [l, l.leave unwind]

/-- The shape after an item. -/
def Shape.past (l : Shape) (i : Item) : Shape := { l with scopes := i.after l.scopes }

mutual

/-- The shapes inside the code of an item that stands at `offset`, `unwind` scopes inside the innermost
    loop. -/
def Item.shapes (unwind offset : Nat) (l : Shape) : Item → List Shape
  | .expr e _ => e.shapes l ++ [l.push 1]
  | .var _ init _ => initShapes l init ++ [l.push 1]
  | .block items span =>
    l :: (itemsShapes (unwind + 1) (offset + 1) (l.enter (.block span)) items
      ++ [{ l with scopes := itemsAfter items (l.enter (.block span)).scopes }])
  | .ifThen c t _ =>
    c.shapes l ++ [l.push 1, l.push 1] ++ t.shapes unwind (offset + c.size + 2) l ++ [l, l.push 1]
  | .ifElse c t e _ =>
    c.shapes l ++ [l.push 1, l.push 1] ++ t.shapes unwind (offset + c.size + 2) l ++ [l, l.push 1]
      ++ e.shapes unwind (offset + c.size + t.size unwind + 4) l
  | .while c body increment _ =>
    c.shapes l ++ [l.push 1, l.push 1] ++ body.shapes 0 (offset + c.size + 2) l
      ++ incrementShapes l increment ++ [l, l.push 1]
  | .repeat count body _ =>
    count.shapes l ++ [l.push 1] ++ body.shapes 0 (offset + count.size + 1) (l.push 1)
      ++ [l.push 1, l.push 2, l.push 1, l.push 1]
  | .return (some e) _ => e.shapes l ++ [l.push 1]
  | .return none _ => [l, l.push 1]
  | .break _ => leaveShapes unwind l
  | .continue _ => leaveShapes unwind l
  | .assert c _ _ => c.shapes l ++ [l.push 1]
  | .assertFails e _ _ => l :: (e.shapes (l.guarded offset) ++ [(l.guarded offset).push 1])
  | .function _ _ => [l]
  | .class _ none _ _ => [l, l.flagged false]
  | .class _ (some _) _ _ => [l, l.push 1, (l.push 1).flagged true]

/-- The shapes inside the code of several items. -/
def itemsShapes (unwind offset : Nat) (l : Shape) : List Item → List Shape
  | [] => []
  | i :: is =>
    i.shapes unwind offset l ++ itemsShapes unwind (offset + i.size unwind) (l.past i) is

end

end Eleu

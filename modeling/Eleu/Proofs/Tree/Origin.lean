import Eleu.Fault
import Eleu.Tree

/-! # What a program consists of

    A tree has a span at each of its nodes: at items, expressions and declarations of functions.
    `Item.spans` lists them. An `Origin` is a collection of declarations and of places that has with
    a declaration all that stands in it; what an executor calls, and where it says that something
    went wrong, is to come from there. The nodes and declarations of a program are such an origin
    (`Origin.ofItems`). -/

namespace Eleu

/-! ## The places of a tree -/

mutual

/-- The places of an expression and of those in it. -/
def Expr.spans : Expr → List Span
  | .literal _ span | .name _ span | .this _ span | .super _ _ span => [span]
  | .list elements span => span :: exprsSpans elements
  | .assign _ value span => span :: value.spans
  | .unary _ operand span => span :: operand.spans
  | .binary left _ right span => span :: (left.spans ++ right.spans)
  | .logical left _ right span => span :: (left.spans ++ right.spans)
  | .group inner span => span :: inner.spans
  | .call callee args span => span :: (callee.spans ++ exprsSpans args)
  | .getField object _ span => span :: object.spans
  | .setField object _ value span => span :: (object.spans ++ value.spans)

/-- The places in a list of expressions. -/
def exprsSpans : List Expr → List Span
  | [] => []
  | e :: es => e.spans ++ exprsSpans es

end

/-- The places in an expression that may be missing. -/
def optionSpans : Option Expr → List Span
  | some e => e.spans
  | none => []

mutual

/-- The places of an item and of all items, expressions and declarations in it. -/
def Item.spans : Item → List Span
  | .expr e span => span :: e.spans
  | .var _ init span => span :: optionSpans init
  | .block items span => span :: itemsSpans items
  | .ifThen c t span => span :: (c.spans ++ t.spans)
  | .ifElse c t e span => span :: (c.spans ++ (t.spans ++ e.spans))
  | .while c body increment span => span :: (c.spans ++ (body.spans ++ optionSpans increment))
  | .repeat count body span => span :: (count.spans ++ body.spans)
  | .return value span => span :: optionSpans value
  | .break span | .continue span => [span]
  | .assert c _ span => span :: c.spans
  | .assertFails e _ span => span :: e.spans
  | .function decl span => span :: decl.spans
  | .class _ _ methods span => span :: methodsSpans methods

/-- The places in a list of items. -/
def itemsSpans : List Item → List Span
  | [] => []
  | i :: is => i.spans ++ itemsSpans is

/-- The places of a declaration and of what stands in its body. -/
def FunctionDecl.spans : FunctionDecl → List Span
  | ⟨_, _, _, _, _, body, span⟩ => span :: itemsSpans body

/-- The places in a list of methods. -/
def methodsSpans : List FunctionDecl → List Span
  | [] => []
  | m :: ms => m.spans ++ methodsSpans ms

end

theorem FunctionDecl.spans_eq (d : FunctionDecl) : d.spans = d.span :: itemsSpans d.body := by
  cases d
  rfl

theorem Expr.span_mem_spans (e : Expr) : e.span ∈ e.spans := by cases e <;> exact .head _

theorem Item.span_mem_spans (i : Item) : i.span ∈ i.spans := by cases i <;> exact .head _

/-! ## Declarations inside a tree -/

theorem FunctionDecl.declarations_eq (decl : FunctionDecl) :
    decl.declarations = decl :: declarationsIn decl.body := by
  cases decl
  rfl

/-- Predicates that hold of what stands in the items and functions of which they hold. -/
structure Inherited (I : Item → Prop) (Is : List Item → Prop) (F : FunctionDecl → Prop)
    (Fs : List FunctionDecl → Prop) : Prop where
  block : I (.block items span) → Is items
  ifThen : I (.ifThen c t span) → I t
  ifElse : I (.ifElse c t e span) → I t ∧ I e
  «while» : I (.while c body increment span) → I body
  «repeat» : I (.repeat count body span) → I body
  function : I (.function decl span) → F decl
  «class» : I (.class name parent methods span) → Fs methods
  items : Is (i :: is) → I i ∧ Is is
  body : F decl → Is decl.body
  methods : Fs (m :: ms) → F m ∧ Fs ms

namespace Inherited

variable {I : Item → Prop} {Is : List Item → Prop} {F : FunctionDecl → Prop}
  {Fs : List FunctionDecl → Prop} (h : Inherited I Is F Fs)

include h

mutual

/-- The functions declared in an item inherit what holds of it. -/
theorem inItem : ∀ i : Item, I i → ∀ d ∈ i.declarations, F d
  | .block items _, hi, d, hd => inItems items (h.block hi) d hd
  | .ifThen _ t _, hi, d, hd => inItem t (h.ifThen hi) d hd
  | .ifElse _ t e _, hi, d, hd =>
    (List.mem_append.1 hd).elim (inItem t (h.ifElse hi).1 d) (inItem e (h.ifElse hi).2 d)
  | .while _ body _ _, hi, d, hd => inItem body (h.while hi) d hd
  | .repeat _ body _, hi, d, hd => inItem body (h.repeat hi) d hd
  | .function decl _, hi, d, hd => inFunction decl (h.function hi) d hd
  | .class _ _ methods _, hi, d, hd => inMethods methods (h.class hi) d hd
  | .expr _ _, _, _, hd | .var _ _ _, _, _, hd | .return _ _, _, _, hd | .break _, _, _, hd
  | .continue _, _, _, hd | .assert _ _ _, _, _, hd | .assertFails _ _ _, _, _, hd => nomatch hd

theorem inItems : ∀ is : List Item, Is is → ∀ d ∈ declarationsIn is, F d
  | i :: is, hs, d, hd =>
    (List.mem_append.1 hd).elim (inItem i (h.items hs).1 d) (inItems is (h.items hs).2 d)

theorem inFunction : ∀ decl : FunctionDecl, F decl → ∀ d ∈ decl.declarations, F d
  | ⟨_, _, _, _, _, body, _⟩, hf, d, hd => by
    rcases List.mem_cons.1 hd with rfl | hd
    · exact hf
    · exact inItems body (h.body hf) d hd

theorem inMethods : ∀ ms : List FunctionDecl, Fs ms → ∀ d ∈ declarationsInMethods ms, F d
  | m :: ms, hs, d, hd =>
    (List.mem_append.1 hd).elim (inFunction m (h.methods hs).1 d) (inMethods ms (h.methods hs).2 d)

end

end Inherited

theorem inherited_declarations (D : List FunctionDecl) :
    Inherited (·.declarations ⊆ D) (declarationsIn · ⊆ D) (·.declarations ⊆ D)
      (declarationsInMethods · ⊆ D) := by
  constructor <;>
    simp +contextual [Item.declarations, declarationsIn, FunctionDecl.declarations_eq, declarationsInMethods]

theorem inherited_spans (X : List Span) :
    Inherited (·.spans ⊆ X) (itemsSpans · ⊆ X) (·.spans ⊆ X) (methodsSpans · ⊆ X) := by
  constructor <;> simp +contextual [Item.spans, itemsSpans, FunctionDecl.spans_eq, methodsSpans]

/-- What is declared in a function of a program is declared in the program. -/
theorem declarations_inside {items : List Item} {d : FunctionDecl} (h : d ∈ declarationsIn items) :
    d.declarations ⊆ declarationsIn items :=
  (inherited_declarations _).inItems items (List.Subset.refl _) d h

/-- A declaration is one of those in it. -/
theorem FunctionDecl.mem_declarations (d : FunctionDecl) : d ∈ d.declarations := by
  cases d
  exact .head _

/-- Methods are declarations of their class. -/
theorem mem_declarationsInMethods {ms : List FunctionDecl} {m : FunctionDecl} (h : m ∈ ms) :
    m ∈ declarationsInMethods ms := by
  induction h with
  | head ms => exact List.mem_append_left _ m.mem_declarations
  | tail m' _ ih => exact List.mem_append_right _ ih

/-! ## Origins -/

/-- Declarations and places. What stands in the body of a declaration belongs to them. -/
structure Origin where
  declared : FunctionDecl → Prop
  place : Span → Prop
  spans : ∀ {d : FunctionDecl}, declared d → ∀ s ∈ d.spans, place s
  inner : ∀ {d : FunctionDecl}, declared d → ∀ d' ∈ declarationsIn d.body, declared d'

namespace Origin

/-- Everything. -/
def all : Origin := ⟨fun _ => True, fun _ => True, fun _ _ _ => trivial, fun _ _ _ => trivial⟩

/-- The declarations and places of a program. -/
def ofItems (items : List Item) : Origin where
  declared d := d ∈ declarationsIn items
  place s := s ∈ itemsSpans items
  spans h _ hs := (inherited_spans _).inItems items (List.Subset.refl _) _ h hs
  inner h d hd := declarations_inside h (by rw [FunctionDecl.declarations_eq]; exact .tail _ hd)

end Origin

/-- A fault that has a place has it in the origin. -/
def Fault.From (O : Origin) (f : Fault) : Prop := ∀ p ∈ f.span, O.place p

variable {O : Origin}

theorem Fault.from_unplaced (c : Cause) : ({ cause := c } : Fault).From O := fun _ hp => nomatch hp

theorem Fault.from_all (f : Fault) : f.From .all := fun _ _ => trivial

theorem Fault.from_placed (c : Cause) {span : Span} (h : O.place span) :
    ({ cause := c, span := some span } : Fault).From O := by
  rintro p ⟨⟩
  exact h

/-- The fault has a place, in the origin. -/
def Fault.Placed (O : Origin) (f : Fault) : Prop := ∃ p, f.span = some p ∧ O.place p

theorem Fault.Placed.from {f : Fault} (h : f.Placed O) : f.From O := by
  obtain ⟨p, hp, hplace⟩ := h
  intro q hq
  rw [hp] at hq
  cases hq
  exact hplace

/-- A fault is placed in the origin, or has a place there already. -/
theorem Fault.From.locate {f : Fault} (h : f.From O) {span : Option Span}
    (hs : ∃ p, span = some p ∧ O.place p) : (f.locate span).Placed O := by
  cases hp : f.span with
  | some p => exact ⟨p, by rw [Fault.locate, hp, Option.some_or], h p hp⟩
  | none =>
    obtain ⟨p, rfl, hplace⟩ := hs
    exact ⟨p, by rw [Fault.locate, hp, Option.none_or], hplace⟩

end Eleu

import Eleu.Proofs.Scope.Context
import Mathlib.Data.List.Nodup

/-! # Names and ids in a tree

    A name is any word that is no keyword. The ids of a tree, of references and of functions alike,
    are listed in the order of the text; no two of them should be the same, so that the id of a
    declaration tells it from all others (`decl_eq_of_id`). -/

namespace Eleu

/-- A word that can be the name of something. -/
def Nameable (name : String) : Prop := Keyword.ofWord? name = none

theorem Nameable.not_reserved {name : String} (h : Nameable name) : ¬ Reserved name := by
  rintro (rfl | rfl)
  · exact nomatch h
  · exact nomatch h

/-! ## Ids -/

mutual

/-- The ids of the references in an expression. -/
def Expr.ids : Expr → List Nat
  | .literal _ _ => []
  | .list elements _ => exprsIds elements
  | .name ident _ => [ident.id]
  | .assign target value _ => target.id :: value.ids
  | .unary _ operand _ => operand.ids
  | .binary left _ right _ => left.ids ++ right.ids
  | .logical left _ right _ => left.ids ++ right.ids
  | .group inner _ => inner.ids
  | .call callee args _ => callee.ids ++ exprsIds args
  | .getField object _ _ => object.ids
  | .setField object _ value _ => object.ids ++ value.ids
  | .this ident _ => [ident.id]
  | .super ident _ _ => [ident.id]

/-- The ids of the references in expressions. -/
def exprsIds : List Expr → List Nat
  | [] => []
  | e :: es => e.ids ++ exprsIds es

end

/-- The ids of the references in an expression that may be missing. -/
def optionIds : Option Expr → List Nat
  | none => []
  | some e => e.ids

mutual

/-- The ids of the references and the functions in an item. -/
def Item.ids : Item → List Nat
  | .expr e _ => e.ids
  | .var _ init _ => optionIds init
  | .block items _ => itemsIds items
  | .ifThen c t _ => c.ids ++ t.ids
  | .ifElse c t e _ => c.ids ++ (t.ids ++ e.ids)
  | .while c body increment _ => c.ids ++ (body.ids ++ optionIds increment)
  | .repeat count body _ => count.ids ++ body.ids
  | .return value _ => optionIds value
  | .break _ => []
  | .continue _ => []
  | .assert c _ _ => c.ids
  | .assertFails e _ _ => e.ids
  | .function decl _ => decl.ids
  | .class _ parent methods _ => (parent.map (·.id)).toList ++ methodsIds methods

/-- The ids in items. -/
def itemsIds : List Item → List Nat
  | [] => []
  | i :: is => i.ids ++ itemsIds is

/-- The id of a function and those in its body. -/
def FunctionDecl.ids : FunctionDecl → List Nat
  | ⟨_, id, _, _, _, body, _⟩ => id :: itemsIds body

/-- The ids of methods and those in their bodies. -/
def methodsIds : List FunctionDecl → List Nat
  | [] => []
  | m :: ms => m.ids ++ methodsIds ms

end

/-! ## Declarations -/

mutual

/-- The declarations of an item stand among its ids, in the same order. -/
theorem Item.sublist_ids : ∀ i : Item, (i.declarations.map (·.id)).Sublist i.ids
  | .expr _ _ | .var _ _ _ | .return _ _ | .break _ | .continue _ | .assert _ _ _
  | .assertFails _ _ _ => List.nil_sublist _
  | .block items _ => itemsIds_sublist items
  | .ifThen c t _ => t.sublist_ids.trans (List.sublist_append_right _ _)
  | .ifElse c t e _ => by
    rw [Item.declarations, List.map_append]
    exact (t.sublist_ids.append e.sublist_ids).trans (List.sublist_append_right _ _)
  | .while c body _ _ =>
    (body.sublist_ids.trans (List.sublist_append_left _ _)).trans (List.sublist_append_right _ _)
  | .repeat count body _ => body.sublist_ids.trans (List.sublist_append_right _ _)
  | .function decl _ => decl.sublist_ids
  | .class _ _ methods _ => (methodsIds_sublist methods).trans (List.sublist_append_right _ _)

theorem itemsIds_sublist : ∀ is : List Item, ((declarationsIn is).map (·.id)).Sublist (itemsIds is)
  | [] => List.nil_sublist _
  | i :: is => by
    rw [declarationsIn, List.map_append]
    exact i.sublist_ids.append (itemsIds_sublist is)

theorem FunctionDecl.sublist_ids : ∀ decl : FunctionDecl,
    (decl.declarations.map (·.id)).Sublist decl.ids
  | ⟨_, _, _, _, _, body, _⟩ => (itemsIds_sublist body).cons_cons _

theorem methodsIds_sublist : ∀ ms : List FunctionDecl,
    ((declarationsInMethods ms).map (·.id)).Sublist (methodsIds ms)
  | [] => List.nil_sublist _
  | m :: ms => by
    rw [declarationsInMethods, List.map_append]
    exact m.sublist_ids.append (methodsIds_sublist ms)

end

/-- The id of a declaration tells it from all others in the list. -/
abbrev IdsTell (D : List FunctionDecl) : Prop := ∀ a ∈ D, ∀ b ∈ D, a.id = b.id → a = b

/-- The id of a declaration tells it among all declarations of a text. -/
theorem decl_eq_of_id {items : List Item} (h : (itemsIds items).Nodup) {d e : FunctionDecl}
    (hd : d ∈ declarationsIn items) (he : e ∈ declarationsIn items) (hid : d.id = e.id) : d = e := by
  have hnodup : ((declarationsIn items).map (·.id)).Nodup := h.sublist (itemsIds_sublist items)
  exact List.inj_on_of_nodup_map hnodup hd he hid

end Eleu

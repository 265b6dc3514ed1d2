import Eleu.Proofs.Code.Emitted
import Eleu.Proofs.Scope.Exact

/-! # A resolved program always has code

    Code generation can fail in two places only: at a number that is not finite, and at a `super`
    without a distance. Neither is left in a tree that follows the exact rules, so that every such
    program has a chunk (`programChunk_total`), and every function that can come to be called has
    one (`Setting.exact_chunk`). -/

namespace Eleu

variable {D : List FunctionDecl} {T : List Reference} {d : Distances}

theorem Rules.exact_supers {r : Reference} {depth : Option Nat}
    (h : (Rules.exact D T d).supers r depth) : depth ≠ none := by
  obtain ⟨-, -, -, n, -, rfl, -⟩ := h
  exact Option.some_ne_none _

theorem Yields.exists_of_refuses {α : Type} {P : α → Prop} {O : Origin} {x : Except Fault α}
    (h : Yields x P (Fault.Refuses O True)) : ∃ a, x = .ok a := by
  cases x with
  | ok a => exact ⟨a, rfl⟩
  | error f => exact absurd trivial h.not

/-- A function that can come to be called has a chunk. -/
theorem Setting.exact_chunk {H : History} {decl : FunctionDecl} {Γ : Context}
    (h : (Setting.exact D T d H).rules.known decl Γ) : ∃ chunk, functionChunk d decl = .ok chunk :=
  (functionChunk_emits (O := .all) (fun _ => Rules.exact_supers) trivial
    fun _ => exact_follows h).exists_of_refuses

/-- So has a program that follows the rules. -/
theorem programChunk_total {items : List Item} (name : String)
    (h : itemsFollow (Rules.exact D T d) d none false [] items) :
    ∃ chunk, programChunk d name items = .ok chunk :=
  (programChunk_emits (O := .all) (fun _ => Rules.exact_supers) name (fun _ _ => trivial)
    (fun _ _ => trivial) fun _ => h).exists_of_refuses

end Eleu

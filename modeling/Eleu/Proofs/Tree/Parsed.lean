import Eleu.Proofs.Outcome
import Eleu.Proofs.Tree.Ids
import Eleu.Tree.ParseItem

/-! # What the parser hands out

    The scanner makes no name of a keyword (`scan_proper`). The parser hands out its ids in order, and
    puts the number of the source text that it reads into every declaration. So the ids of a part of the
    text are those handed out while it was read (`Issued`), and the declarations of two texts with
    different numbers are never the same one (`OfUnit`). -/

namespace Eleu

/-! ## Tokens -/

/-- A token that is a name can be used as one. -/
def Token.Proper (t : Token) : Prop := t.kind = .name → Nameable t.lexeme

theorem Piece.first_proper (c : Char) (cs : List Char) (h : (Piece.first c cs).kind = .name) :
    Nameable (Piece.first c cs).lexeme := by
  have key : ∀ p : Piece, Piece.first c cs = p → p.kind = .name → Nameable p.lexeme := by
    intro p hp hk
    unfold Piece.first at hp
    split at hp
    · subst hp
      unfold Piece.extensible at hk
      split at hk <;> exact nomatch hk
    · split at hp
      · subst hp
        exact nomatch hk
      · split at hp
        · subst hp
          unfold Piece.string at hk
          split at hk <;> exact nomatch hk
        · split at hp
          · subst hp
            exact nomatch hk
          · split at hp
            · subst hp
              -- The word is a name because it is no keyword.
              cases hw : Keyword.ofWord? (String.ofList (c :: cs.takeWhile Text.continuesName)) with
              | some k =>
                simp only [Piece.word, hw] at hk
                exact nomatch hk
              | none =>
                unfold Piece.lexeme
                rw [hk]
                exact hw
            · split at hp
              · subst hp
                unfold Piece.number at hk
                split at hk
                · split at hk <;> exact nomatch hk
                · exact nomatch hk
              · subst hp
                exact nomatch hk
  exact key _ rfl h

/-- What holds of the first token of every text holds of all tokens of a text. -/
theorem scanFrom_forall {P : TokenKind → String → Prop} (hend : P .endOfFile "end of file")
    (hfirst : ∀ c cs, P (Piece.first c cs).kind (Piece.first c cs).lexeme) (file : String)
    (rounds : Nat) (p : Pos) (cs : List Char) :
    ∀ t ∈ scanFrom file rounds p cs, P t.kind t.lexeme := by
  induction rounds generalizing p cs with
  | zero => exact fun _ h => nomatch h
  | succ rounds ih =>
    intro t ht
    unfold scanFrom at ht
    split at ht
    · rw [List.mem_singleton.1 ht]
      exact hend
    · rename_i p c cs _
      dsimp only at ht
      split at ht
      · rw [List.mem_singleton.1 ht]
        exact hfirst c cs
      · cases ht with
        | head => exact hfirst c cs
        | tail _ ht => exact ih _ _ t ht

theorem scan_proper (file source : String) : ∀ t ∈ scan file source, t.Proper :=
  scanFrom_forall (P := fun kind lexeme => kind = .name → Nameable lexeme) (fun h => nomatch h)
    Piece.first_proper file _ _ _

/-! ## Ids and declarations -/

/-- Different ids, handed out after `first` and up to `last`. -/
structure Issued (first last : Nat) (ids : List Nat) : Prop where
  le : first ≤ last
  nodup : ids.Nodup
  bounds : ∀ id ∈ ids, first < id ∧ id ≤ last

namespace Issued

variable {first mid last : Nat} {ids ids' : List Nat}

theorem nil : Issued last last [] := ⟨Nat.le_refl _, .nil, nofun⟩

theorem one : Issued last (last + 1) [last + 1] := by
  refine ⟨Nat.le_succ _, List.nodup_singleton _, fun id hid => ?_⟩
  rw [List.mem_singleton.1 hid]
  omega

theorem append (h : Issued first mid ids) (h' : Issued mid last ids') : Issued first last (ids ++ ids') := by
  refine ⟨Nat.le_trans h.le h'.le, h.nodup.append h'.nodup fun id hid hid' => ?_, fun id hid => ?_⟩
  · have := h.bounds id hid
    have := h'.bounds id hid'
    omega
  · have := h.le
    have := h'.le
    rcases List.mem_append.1 hid with hid | hid
    · have := h.bounds id hid
      omega
    · have := h'.bounds id hid
      omega

theorem perm (h : Issued first last ids) (hp : ids.Perm ids') : Issued first last ids' :=
  ⟨h.le, hp.nodup_iff.1 h.nodup, fun id hid => h.bounds id (hp.mem_iff.2 hid)⟩

end Issued

/-- All declarations in the list belong to the source text `unit`. -/
def OfUnit (unit : Nat) (decls : List FunctionDecl) : Prop := ∀ decl ∈ decls, decl.unit = unit

theorem OfUnit.nil {unit : Nat} : OfUnit unit [] := nofun

theorem OfUnit.append {unit : Nat} {ds es : List FunctionDecl} (hd : OfUnit unit ds)
    (he : OfUnit unit es) : OfUnit unit (ds ++ es) := List.forall_mem_append.2 ⟨hd, he⟩

end Eleu

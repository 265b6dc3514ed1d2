import Eleu.Proofs.Scope.Resolved
import Eleu.Proofs.Scope.Setting
import Eleu.Proofs.Tree.Regular

/-! # The setting of a resolved program

    In the lax view of a machine, nothing is asked of distances. A program that was resolved as a
    whole can be judged exactly: its functions are known only where their bodies follow the rules of
    the resolver, so that whoever calls one runs a text whose distances are right. -/

namespace Eleu

variable {D : List FunctionDecl} {T : List Reference} {d : Distances} {new : Prop}

/-- The rules of a resolved program. A declaration is known only where it follows them, and a distance
    is the one that the table has. -/
def Rules.exact (D : List FunctionDecl) (T : List Reference) (d : Distances) (new : Prop := False) :
    Rules where
  known decl Γ := decl.Follows (Rules.resolved D T new) d decl.role Γ
  reads r depth := depth = d.get? r.ident.id ∧ (Rules.resolved D T).reads r depth
  writes r depth := depth = d.get? r.ident.id ∧ (Rules.resolved D T).writes r depth
  supers r depth := depth = d.get? r.ident.id ∧ (Rules.resolved D T).supers r depth
  returns := (Rules.resolved D T).returns
  declares := (Rules.resolved D T new).declares
  named h := h.1

theorem Rules.transfer_exact (D : List FunctionDecl) (T : List Reference) (d : Distances) :
    (Rules.resolved D T new).Transfer (Rules.exact D T d new) d d Eq where
  declare h := congrArg _ h
  enter h := congrArg _ h
  plain h hp := h ▸ hp
  known h hf := h ▸ hf
  reads h hr := h ▸ ⟨rfl, hr⟩
  writes h hw := h ▸ ⟨rfl, hw⟩
  supers h hs := h ▸ ⟨rfl, hs⟩
  declares h hn := h ▸ hn

/-- The id of a declaration of an accepted text tells it from all others there, and the text follows the
    exact rules with the distances that were noted. -/
theorem parseText_exact {r : Recovery} {unit : Nat} {file source : String} {items : List Item}
    (parsed : parseText r unit file source = .ok items) (resolved : resolve items = .ok d) (new : Prop := False) :
    IdsTell (declarationsIn items)
      ∧ itemsFollow (Rules.exact (declarationsIn items) (itemsReferences [] items) (({} : Distances).union d) new)
          (({} : Distances).union d) none false [] items := by
  obtain ⟨hregular, hnodup⟩ := parseText_tree parsed
  exact ⟨fun a ha b hb => decl_eq_of_id hnodup ha hb,
    items_transfer (Rules.transfer_exact _ _ _) items rfl (resolve_noted resolved hregular hnodup new)⟩

/-- The instance that an initialiser returns stays where it is. -/
theorem Rules.stable_exact (D : List FunctionDecl) (T : List Reference) (d : Distances) :
    (Rules.exact D T d new).Stable where
  declare {Γ n name} hn h := by
    have hne : "this" ≠ name := fun heq => hn (.inl heq.symm)
    exact (Context.distance?_declare_of_ne hne).trans h
  enter {Γ n} site h := by
    have h : Γ.distance? "this" = some n := h
    show Context.distance? "this" ({ site } :: Γ) = some (n + 1)
    rw [Context.distance?, if_neg (List.not_mem_nil), h]
    rfl

/-- The setting of a resolved program, in which the body of a function is judged inside the scopes
    around its declaration. -/
def Setting.exact (D : List FunctionDecl) (T : List Reference) (d : Distances)
    (H : History) (new : Prop := False) : Setting where
  rules := .exact D T d new
  stable := Rules.stable_exact D T d
  history := H
  start decl Γ := decl.scope :: Γ
  start_eq _ _ := .inr rfl

namespace Setting

variable {H : History} {decl : FunctionDecl} {Γ : Context}

theorem exact_follows (h : (Setting.exact D T d H new).rules.known decl Γ) :
    itemsFollow (Rules.exact D T d new) d (some decl.role) false (decl.scope :: Γ) decl.body := by
  obtain ⟨-, -, -, hbody⟩ := FunctionDecl.follows_iff.1 h
  exact items_transfer (Rules.transfer_exact D T d) decl.body rfl hbody

theorem exact_mem (h : (Setting.exact D T d H new).rules.known decl Γ) : decl ∈ D :=
  (FunctionDecl.follows_iff.1 h).1.1

theorem isInitialiser_iff (decl : FunctionDecl) :
    decl.isInitialiser = true ↔ decl.role = .initialiser := by
  unfold FunctionDecl.isInitialiser FunctionDecl.role Resolve.methodRole
  cases decl.kind with
  | function => simp
  | method => by_cases h : decl.name = "init" <;> simp [h]

/-- An initialiser finds its instance right outside its own scope. -/
theorem exact_returns (h : (Setting.exact D T d H new).rules.known decl Γ)
    (hi : decl.isInitialiser = true) :
    Context.distance? "this" (decl.scope :: Γ) = some 1 := by
  obtain ⟨⟨-, hthis⟩, -, hparams, -⟩ := FunctionDecl.follows_iff.1 h
  have hkind : decl.kind = .method := by
    unfold FunctionDecl.isInitialiser at hi
    cases hk : decl.kind with
    | method => rfl
    | function => simp [hk] at hi
  have hfree : "this" ∉ decl.scope.names := fun hmem => hparams "this" hmem (.inl rfl)
  rw [Context.distance?, if_neg hfree, hthis hkind]
  rfl

end Setting

end Eleu

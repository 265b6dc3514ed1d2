import Eleu.Proofs.Walker.Conserves

/-! # The walker only adds to the store

    Whatever the walker does, and however it ends, the scopes and classes that were there are there
    afterwards, with the parents and superclasses they had. This holds from the start of a task to
    its end (`Visit.extends`), up to a recursive call (`Visit.Calls.extends`), and from the end of
    a recursive call to the end of the task that has made it (`Visit.Calls.above`). -/

namespace Eleu

/-- The store of the second walker came after that of the first. -/
def Walker.Extends (w w' : Walker) : Prop := w.world.store.Extends w'.world.store

variable {o : Options}

theorem Walker.Extends.law (ho : o.HonestHost) : Walker.Law o Walker.Extends where
  refl w := .refl w.world.store
  trans h h' := Store.Extends.trans h h'
  add w s h := h.extends
  native w f args := (NativeM.call_grows ho f args w.world).extends
  poll w := by
    show w.world.store.Extends (w.world.poll o).2.store
    rw [World.store_poll]
    exact .refl _
  count w n := .refl w.world.store
  trace w t := .refl w.world.store
  scope e h := h
  call c h := h

theorem Visit.extends (ho : o.HonestHost) (v : Visit) : v.state.Extends (v.final o) :=
  Task.conserves (Walker.Extends.law ho) v.fuel v.task v.state

open Walk (condition_ok located_lift_ok)
open Walker.Regime.Lawful (located mono followed inEnv)

/-- What is left of a loop after a round of its body. -/
theorem Walker.Regime.Lawful.afterBody {R : Walker.Regime} (L : R.Lawful o)
    (run : ∀ n t w, R.Holds w (R.Gives w t) (Task.run o n t w)) {n : Nat} {c : Expr} {body : Item}
    {increment : Option Expr} {flow : Flow} {w₁ w₂ : Walker} :
    R.kept w₁ w₂ → R.Carries flow w₂ → R.Holds w₂ R.Carries ((match Walk.afterRound flow with
      | some flow => return flow
      | none =>
        match increment with
        | some e => do
          let _ ← Walk.expr o n e
          Walk.whileLoop o n c body increment
        | none => Walk.whileLoop o n c body increment : Walk Flow) w₂) := by
  intro hk hflow
  refine L.afterRound hk hflow fun _ => ?_
  cases increment with
  | none => exact run n (.whileLoop c body none) w₂
  | some e => exact L.bind (run n (.expr e) w₂) fun _ w₃ _ _ _ => run n (.whileLoop c body (some e)) w₃

/-- After a recursive call, too, the walker only adds to the store. Each case says what is left of the
    task then. -/
theorem Visit.Calls.above (ho : o.HonestHost) {v u : Visit} (hc : v.Calls o u) {w : Walker}
    (hu : w.Extends (u.final o)) : w.Extends (v.final o) := by
  let R : Walker.Regime := Walker.Law.regime Walker.Extends fun _ => True
  have L : R.Lawful o := (Walker.Extends.law ho).everywhere
  have run (n : Nat) (t : Task) (w : Walker) : R.Holds w (R.Gives w t) (t.run o n w) :=
    L.holds n t w trivial
  have h : R.Holds w (R.Gives u.state u.task) (u.outcome o) := by
    have hdone := run u.fuel u.task u.state
    unfold Visit.final at hu
    unfold Visit.outcome at hu ⊢
    cases hr : u.task.run o u.fuel u.state with
    | ok a w' | error i w' =>
      rw [hr] at hdone hu
      exact ⟨hu, hdone.2⟩
  suffices h : R.Holds w (R.Gives v.state v.task) (v.outcome o) from h.kept
  -- what comes before the call has run (`followed`), what follows it is bound to it
  cases hc with
  | list =>
    exact located trivial (L.bind h fun vs w₁ _ hk _ =>
      ⟨L.list (L.last hk) fun _ _ => trivial, trivial⟩)
  | assign => exact located trivial (L.bind h fun v w₁ _ hk hv => L.assigned hk
      (fun a _ => (Store.Grows.define _ a (.inl id) v).extends) hv)
  | unary =>
    exact located trivial (L.bind h fun v w₁ _ hk _ => L.operation hk (w₁.world.store.unary_inert _ v))
  | binaryLeft =>
    exact located trivial (L.bind h fun l w₁ _ _ _ => L.bind (run _ (.expr _) w₁) fun r w₂ _ hk _ =>
      L.operation hk (w₂.world.store.binary_inert _ l r))
  | binaryRight left =>
    exact located trivial (followed left (L.bind h fun r w₂ _ hk _ =>
      L.operation hk (w₂.world.store.binary_inert _ _ r)))
  | logicalLeft =>
    exact located trivial (L.bind h fun l w₁ _ _ _ => L.bind (run _ (.expr _) w₁) fun r w₂ _ hk _ =>
      L.operation hk (w₂.world.store.logical_inert _ l r))
  | logicalRight left =>
    exact located trivial (followed left (L.bind h fun r w₂ _ hk _ =>
      L.operation hk (w₂.world.store.logical_inert _ _ r)))
  | group => exact located trivial h
  | args =>
    exact located trivial (L.bind h fun vs w₁ _ _ _ => L.bind (run _ (.expr _) w₁) fun f w₂ _ _ _ =>
      run _ (.call f vs _) w₂)
  | callee evaluated =>
    exact located trivial (followed evaluated (L.bind h fun f w₂ _ _ _ => run _ (.call f _ _) w₂))
  | call evaluated found => exact located trivial (followed evaluated (followed found h))
  | getField => exact located trivial (L.bind h fun v w₁ _ hk _ => L.findMember hk v _)
  | setFieldObject =>
    refine located trivial (L.bind h fun x w₁ _ hk _ => ?_)
    cases x with
    | object r =>
      exact L.bind (x := Walk.expr o _ _) (run _ (.expr _) w₁) fun v w₂ _ hk _ =>
        ⟨L.field r _ (L.last hk) trivial, trivial⟩
    | nil | bool | number | string | list | callable => exact L.fault hk rfl
  | setFieldValue found =>
    exact located trivial (followed found (L.bind (x := Walk.expr o _ _) h fun v w₂ _ hk _ =>
      ⟨L.field _ _ (L.last hk) trivial, trivial⟩))
  | first =>
    exact L.bind h fun v w₁ _ _ _ => L.bind (run _ (.exprs _) w₁) fun vs w₂ _ hk _ =>
      L.pure hk fun _ _ => trivial
  | rest evaluated => exact followed evaluated (L.bind h fun vs w₁ _ hk _ => L.pure hk fun _ _ => trivial)
  | closure arity =>
    show R.Holds w _ (Walk.call o _ _ _ _ _)
    rw [Walk.call_closure arity]
    exact h
  | init arity found =>
    show R.Holds w _ (Walk.call o _ _ _ _ _)
    rw [Walk.call_init arity found]
    exact L.bind h fun _ w₁ _ hk _ => L.pure hk trivial
  | body room =>
    show R.Holds w _ (Walk.closure o _ _ _ _ _)
    rw [Walk.closure_body room]
    exact L.bind (L.inCall id (inEnv id h)) fun flow w₁ _ hk hflow => L.callResult hk _ hflow
  | statement proceeds => exact followed proceeds (located trivial h)
  | firstItem =>
    exact L.bind h fun flow w₁ _ hk hflow => L.restItems hk hflow.1 fun _ => run _ (.items _) w₁
  | restItems executed => exact followed executed h
  | exprItem => exact L.bind h fun _ w₁ _ hk _ => L.pure hk ⟨trivial, trivial⟩
  | var => exact L.bind h fun v w₁ _ hk hv => L.declareVar (n := 0) trivial hk hv
  | block => exact L.undeclared rfl (inEnv id h)
  | ifThenTest =>
    refine L.undeclared rfl (L.bind h fun v w₁ _ hk _ => L.branch hk trivial fun b _ => ?_)
    cases b with
    | true => exact mono (run _ (.item _) w₁) fun _ _ _ h => h.1
    | false => exact L.pure hk trivial
  | ifThen tested holds => exact followed tested (followed (condition_ok _ holds) h)
  | ifElseTest =>
    refine L.undeclared rfl (L.bind h fun v w₁ _ hk _ => L.branch hk trivial fun b _ => ?_)
    cases b with
    | true => exact mono (run _ (.item _) w₁) fun _ _ _ h => h.1
    | false => exact mono (run _ (.item _) w₁) fun _ _ _ h => h.1
  | ifElseThen tested holds => exact followed tested (followed (condition_ok _ holds) h)
  | ifElseElse tested fails => exact followed tested (followed (condition_ok _ fails) h)
  | «while» => exact L.undeclared rfl h
  | repeatCount =>
    exact L.undeclared rfl (L.bind h fun v w₁ _ hk _ =>
      L.counted hk trivial fun times _ => run _ (.repeatLoop times _) w₁)
  | «repeat» counted whole =>
    exact L.undeclared rfl (followed counted (followed rfl (followed (located_lift_ok _ whole) h)))
  | «return» => exact L.bind h fun v w₁ _ hk hv => L.pure hk ⟨hv, trivial⟩
  | assert => exact L.undeclared rfl (L.bind h fun v w₁ _ hk _ => L.asserted hk v _)
  | assertFails => exact L.undeclared rfl (L.failing trivial _ h)
  | whileTest =>
    refine L.bind h fun v w₁ _ hk _ => L.branch hk trivial fun b _ => ?_
    cases b with
    | true => exact L.bind (run _ (.item _) w₁) fun flow w₂ _ hk hflow => L.afterBody run hk hflow.1
    | false => exact L.pure hk trivial
  | whileBody tested holds =>
    exact followed tested (followed (condition_ok _ holds)
      (L.bind h fun flow w₂ _ hk hflow => L.afterBody run hk hflow.1))
  | increment tested holds executed proceeds =>
    refine followed tested (followed (condition_ok _ holds) (followed executed ?_))
    simp only [proceeds]
    exact L.bind h fun _ w₁ _ _ _ => run _ (.whileLoop _ _ (some _)) w₁
  | whileAgain tested holds executed proceeds =>
    refine followed tested (followed (condition_ok _ holds) (followed executed ?_))
    simp only [proceeds]
    exact h
  | forAgain tested holds executed proceeds incremented =>
    refine followed tested (followed (condition_ok _ holds) (followed executed ?_))
    simp only [proceeds]
    exact followed incremented h
  | repeatBody =>
    exact L.bind h fun flow w₁ _ hk hflow => L.afterRound hk hflow.1 fun _ => run _ (.repeatLoop _ _) w₁
  | repeatAgain executed proceeds =>
    refine followed executed ?_
    simp only [proceeds]
    exact h
  | firstOfProgram => exact L.bind h fun _ w₁ _ _ _ => run _ (.program _) w₁
  | restOfProgram executed => exact followed executed h

/-- Up to a recursive call the walker only adds to the store. -/
theorem Visit.Calls.extends (ho : o.HonestHost) {v u : Visit} (hc : v.Calls o u) :
    v.state.Extends u.state := by
  obtain h | h | ⟨-, c, args, span, -, h⟩ := hc.enters (Walker.Extends.law ho)
  · exact h
  · rw [h]
    exact (Store.Grows.newEnv _ _).extends
  · rw [h]
    exact (Store.Grows.callStore _ _ _).extends

end Eleu

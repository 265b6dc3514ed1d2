import Eleu.Proofs.Store.Founded
import Eleu.Proofs.Walker.Regime

/-! # What every task of the walker conserves

    All that the walker does to its state is made of a few changes: it adds to the store, calls a
    native, asks the host whether to stop, counts, keeps or forgets a trace, and goes into a scope
    or a call and comes out again. `Walker.Law` lists them. A relation that allows them all holds
    between the state in which a task is begun and the one in which it has ended, whatever the task
    and however it ends (`Task.conserves`). -/

namespace Eleu

/-- The state in which a visit ends. -/
def Visit.final (o : Options) (v : Visit) : Walker := Outcome.state (v.outcome o)

/-- A relation between an earlier and a later state of the walker that allows all that the walker
    does except for declarations. -/
structure Walker.Calm (o : Options) (R : Walker → Walker → Prop) : Prop where
  refl (w : Walker) : R w w
  trans {w w' w'' : Walker} : R w w' → R w' w'' → R w w''
  keep (w : Walker) {s : Store} : w.world.store.Keeps (fun _ => False) s → R w (w.setStore s)
  native (w : Walker) (f : Native) (args : List Value) :
    R w { w with world := Outcome.state (NativeM.call o f args w.world) }
  poll (w : Walker) : R w { w with world := (w.world.poll o).2 }
  count (w : Walker) (n : Nat) : R w { w with count := n }
  trace (w : Walker) (t : Option (List CallSite)) : R w { w with trace := t }
  /-- A scope that is left again. -/
  scope {w v : Walker} (e : EnvRef) : R { w with env := e } v → R w { v with env := w.env }
  /-- A call that is left again. -/
  call {w v : Walker} (c : CallSite) :
    R { w with calls := c :: w.calls } v → R w { v with calls := v.calls.tail }

/-- A relation that allows declarations as well. -/
structure Walker.Law (o : Options) (R : Walker → Walker → Prop) : Prop extends Calm o R where
  add (w : Walker) {s : Store} : w.world.store.Grows (fun _ => False) s → R w (w.setStore s)
  keep := fun w _ h => add w h.toGrows

variable {o : Options} {R : Walker → Walker → Prop} {V : Visit → Prop}

/-- Of the visits `V` nothing is asked but a relation between states. -/
def Walker.Law.regime (R : Walker → Walker → Prop) (V : Visit → Prop) : Walker.Regime :=
  ⟨V, R, fun _ _ => True, fun _ _ _ => True, .all, fun _ => True⟩

/-- Such a relation is a regime for all visits that are closed under calls and may make their
    declarations. -/
theorem Walker.Calm.lawful (L : Calm o R)
    (declare : ∀ {n i w w' s name}, V ⟨n, .statement i, w⟩ → R w w' → i.declared? = some name →
      w'.world.store.Grows (fun _ => False) s → (∀ {a x}, a < w'.world.store.envs.size →
        s.hasLocal a x = true → w'.world.store.hasLocal a x = true ∨ a = w'.env ∧ x = name) →
      R w' (w'.setStore s))
    (body : ∀ {n w c args span}, V ⟨n + 1, .closure c args span, w⟩ → w.calls.length < o.maxCallDepth →
      V ⟨n, .items c.decl.body, w.inBody c args span⟩)
    (block : ∀ {n w items span}, V ⟨n + 1, .statement (.block items span), w⟩ →
      V ⟨n, .items items, w.inScope⟩)
    (part : ∀ {n t w t' w'}, V ⟨n + 1, t, w⟩ → Visit.Calls o ⟨n + 1, t, w⟩ ⟨n, t', w'⟩ → R w w' →
      V ⟨n, t', w'⟩) : (Law.regime R V).Lawful o where
  here _ := L.refl _
  last _ := L.refl _
  trans := L.trans
  carry _ _ := trivial
  places _ _ _ := trivial
  values _ _ _ := trivial
  inert _ := trivial
  getAt e name d _ := (Store.Obeys.any.getAt e name d).mono fun _ _ => trivial
  get e name _ := (Store.Obeys.any.get e name).mono fun _ _ => trivial
  member _ _ := ⟨L.keep _ (.take _ _), trivial⟩
  superMember _ _ := ⟨L.keep _ (.take _ _), trivial⟩
  native {w} f args _ _ := by
    have h := L.native w f args
    cases hr : NativeM.call o f args w.world with
    | ok v world =>
      rw [hr] at h
      exact ⟨h, trivial⟩
    | error f world =>
      rw [hr] at h
      exact ⟨h, f.from_all, trivial⟩
  dynamic _ := trivial
  list _ _ := L.keep _ (.of_eq rfl rfl)
  field _ _ _ _ := L.keep _ (.of_eq rfl rfl)
  newInstance _ _ := L.keep _ (.of_eq rfl rfl)
  bound _ _ :=
    ⟨L.keep _ (.trans (t := (Store.newInstance _ _).2) (.of_eq rfl rfl) (.bind _ _ _)), trivial⟩
  assign ha _ _ _ := L.keep _ (.define id ha _)
  varItem hv hk _ := ⟨declare hv hk rfl (.define _ _ (.inl id) _) fun _ => Store.hasLocal_define, trivial⟩
  functionItem hv hs := by
    rw [hs]
    exact ⟨declare hv (L.refl _) rfl (.define _ _ (.inl id) _) fun _ => Store.hasLocal_define, trivial⟩
  classItem hv _ _ hd :=
    ⟨declare hv (L.refl _) rfl (.declareClass id hd) (Store.hasLocal_declareClass hd), trivial⟩
  unchanged _ _ := trivial
  later _ _ := trivial
  poll _ := L.poll _
  count k h := L.trans h (L.count _ k)
  trace t h := L.trans h (L.trace _ t)
  scope e h := L.scope e h
  call c h := L.call c h
  body hv room := ⟨L.keep _ (.callStore _ _ _), body hv room⟩
  block hv := ⟨L.keep _ (.newEnv _ _), block hv⟩
  part hv hc _ hk _ _ := part hv hc hk

/-- The regime of a law for all visits. -/
theorem Walker.Law.everywhere (L : Law o R) : (regime R fun _ => True).Lawful o :=
  L.lawful (fun _ _ _ h _ => L.add _ h) (fun _ _ => trivial) (fun _ => trivial) fun _ _ _ => trivial

/-- Whatever the fuel, every task conserves a relation that allows all that the walker does. -/
theorem Task.conserves (L : Walker.Law o R) (n : Nat) (t : Task) (w : Walker) :
    R w (Outcome.state (t.run o n w)) :=
  (L.everywhere.holds n t w trivial).kept

/-- What the walker does to its state up to a recursive call is allowed by every law, unless the call
    is made in a new scope or in the body of a function. -/
theorem Visit.Calls.enters (L : Walker.Law o R) {v u : Visit} (hc : v.Calls o u) :
    R v.state u.state ∨ u.state = v.state.inScope
      ∨ v.state.calls.length < o.maxCallDepth
        ∧ ∃ c args span, v.task = .closure c args span ∧ u.state = v.state.inBody c args span := by
  have h := (L.everywhere.calls trivial hc).2
  cases hc with
  | body room => exact .inr (.inr ⟨room, _, _, _, rfl, rfl⟩)
  | block => exact .inr (.inl rfl)
  | _ => exact .inl (h rfl)

end Eleu

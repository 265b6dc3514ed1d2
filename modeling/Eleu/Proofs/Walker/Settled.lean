import Eleu.Proofs.Walker.Extending

/-! # What the walker comes from

    A visit comes from an origin if its task is a part of the origin, the values that the task is
    about refer to what is there, and the store is founded. The visits that it calls come from there
    too (`Visit.From.calls`). However it ends, the store has evolved, a value that it gives refers to
    what is there, and a fault that has a place has it in the origin (`Visit.From.settled`). -/

namespace Eleu

/-! ## Tasks and their parts -/

namespace Task

/-- The declarations in a task. -/
def declarations : Task → List FunctionDecl
  | .expr _ | .exprs _ | .call _ _ _ | .closure _ _ _ => []
  | .item i | .statement i => i.declarations
  | .items is | .program is => declarationsIn is
  | .whileLoop _ body _ => body.declarations
  | .repeatLoop _ body => body.declarations

/-- A task that is a part of the origin, about values that refer to what is there. -/
structure From (O : Origin) (s : Store) (t : Task) : Prop where
  places : ∀ p ∈ t.spans, O.place p
  declared : ∀ d ∈ t.declarations, O.declared d
  values : ∀ v ∈ t.values, v.Present O.declared s

end Task

/-- A visit that comes from the origin. -/
structure Visit.From (O : Origin) (v : Visit) : Prop where
  store : v.state.world.store.Founded O.declared
  env : v.state.env < v.state.world.store.envs.size
  task : v.task.From O v.state.world.store

/-- What is left of the state `w` after a task. -/
structure Walker.Evolves (D : FunctionDecl → Prop) (w w' : Walker) : Prop where
  store : w.world.store.Evolves D w'.world.store
  env : w'.env = w.env

variable {O : Origin} {D : FunctionDecl → Prop} {o : Options} {n : Nat} {w w' : Walker}

theorem Walker.Evolves.setStore {s : Store} (h : w.world.store.Evolves D s) : w.Evolves D (w.setStore s) :=
  ⟨h, rfl⟩

theorem Walker.Evolves.trans {w'' : Walker} (h : w.Evolves D w') (h' : w'.Evolves D w'') :
    w.Evolves D w'' :=
  ⟨h.store.trans h'.store, h'.env.trans h.env⟩

namespace Visit

/-- A task that is called is a part of the one that calls it, or the body of a function. -/
theorem Calls.places {v u : Visit} (hc : v.Calls o u) {s : Store} (h : v.task.From O s) :
    (∀ p ∈ u.task.spans, O.place p) ∧ ∀ d ∈ u.task.declarations, O.declared d := by
  obtain ⟨hp, hd, hv⟩ := h
  cases hc with
  | body room =>
    obtain ⟨hc, -⟩ : Closure.Present O.declared s _ := hv _ (.head _)
    refine ⟨fun p h => O.spans hc p ?_, O.inner hc⟩
    rw [FunctionDecl.spans_eq]
    exact .tail _ h
  | _ =>
    refine ⟨fun p h => hp p ?_, fun d h => hd d ?_⟩ <;>
      simp_all only [Task.spans, Task.declarations, Expr.spans, exprsSpans, Item.spans, itemsSpans,
        optionSpans, Item.declarations, declarationsIn, List.mem_cons, List.mem_append, or_true,
        true_or, List.not_mem_nil]

/-- A call that is made in the environment of its caller. -/
theorem From.next {t t' : Task} (hp : From O ⟨n + 1, t, w⟩) (hc : Calls o ⟨n + 1, t, w⟩ ⟨n, t', w'⟩)
    (hk : w.Evolves O.declared w') (hv : ∀ v ∈ t'.values, v.Present O.declared w'.world.store) :
    From O ⟨n, t', w'⟩ := by
  obtain ⟨hplaces, hdecls⟩ := hc.places hp.task
  refine ⟨hk.store.founded, ?_, hplaces, hdecls, hv⟩
  show w'.env < w'.world.store.envs.size
  rw [hk.env]
  exact Nat.lt_of_lt_of_le hp.env hk.store.extends.envs

end Visit

/-- What is asked of a walker that comes from an origin. -/
def Origin.regime (O : Origin) : Walker.Regime :=
  ⟨Visit.From O, Walker.Evolves O.declared, fun s v => v.Present O.declared s, fun _ _ _ => True, O,
    fun _ => True⟩

theorem Origin.lawful (O : Origin) (ho : o.HonestHost) (ha : O.Admits o) : O.regime.Lawful o where
  here hv := ⟨.refl hv.store, rfl⟩
  last hk := ⟨.refl hk.store.founded, rfl⟩
  trans := Walker.Evolves.trans
  carry hk hv := hk.store.extends.present hv
  places hv := hv.task.places
  values hv := hv.task.values
  inert hv := hv.present
  getAt e name d hk := hk.store.founded.getAt e name d
  get e name hk := hk.store.founded.get e name
  member hk hm :=
    have h := Store.Evolves.take hk.store.founded (hk.store.founded.obeys.findMember hm)
    ⟨.setStore h.1, h.2⟩
  superMember hk hm :=
    have h := Store.Evolves.take hk.store.founded (hk.store.founded.obeys.findSuper hm)
    ⟨.setStore h.1, h.2⟩
  native {w} f args hk hargs := by
    have h := (NativeM.call_honest ho f).evolves hk.store.founded hargs
    have hf := NativeM.call_from ha f args w.world
    cases hr : NativeM.call o f args w.world with
    | ok v world =>
      rw [hr] at h
      exact ⟨⟨h.1, rfl⟩, h.2⟩
    | error g world =>
      rw [hr] at h hf
      exact ⟨⟨h, rfl⟩, hf, trivial⟩
  dynamic _ := trivial
  list hk hvs := .setStore (.newList hk.store.founded fun v hv => hvs v (by simpa using hv))
  field r name hk hv := .setStore (.setField hk.store.founded r name hv)
  newInstance q hk := .setStore (.newInstance hk.store.founded q)
  bound {w q m} hk hm := by
    have hnew := Store.Evolves.newInstance hk.store.founded q
    have hpresent := hnew.founded.findMethod? hm
    exact ⟨.setStore (hnew.trans (.bind hnew.founded hpresent _)), hpresent.1, Store.bind_present _ m _⟩
  assign _ _ hk hv := .setStore (.define hk.store.founded _ _ hv)
  varItem _ hk hv := ⟨.setStore (.define hk.store.founded _ _ hv), trivial⟩
  functionItem {n w decl span s} hv hs := by
    rw [hs]
    have hd : O.declared decl := hv.task.declared decl decl.mem_declarations
    exact ⟨.setStore (.define (v := .callable (.closure _)) hv.store _ _ ⟨hd, hv.env⟩), trivial⟩
  classItem hv _ hp hd :=
    ⟨.setStore (.declareClass hv.store hv.env hp
      (fun d h => hv.task.declared d (mem_declarationsInMethods h)) hd), trivial⟩
  unchanged _ _ := trivial
  later _ _ := trivial
  poll {w} hk := ⟨(World.store_poll w.world o).symm ▸ hk.store, rfl⟩
  count _ hk := ⟨hk.store, hk.env⟩
  trace _ hk := ⟨hk.store, hk.env⟩
  scope _ hk := ⟨hk.store, rfl⟩
  call _ hk := ⟨hk.store, hk.env⟩
  body {n w c args span} hv room := by
    have hcall := Store.Evolves.callStore hv.store (hv.task.values _ (.head _))
      fun v h => hv.task.values v (.tail _ h)
    have hc : Visit.Calls o ⟨n + 1, .closure c args span, w⟩ ⟨n, _, w.inBody c args span⟩ := .body room
    obtain ⟨hplaces, hdecls⟩ := hc.places hv.task
    exact ⟨.setStore hcall, hcall.founded, Store.callStore_present _ _ _, hplaces, hdecls,
      fun v h => nomatch h⟩
  block {n w items span} hv := by
    have hnew := Store.Evolves.newEnv hv.store hv.env
    have hc : Visit.Calls o ⟨n + 1, .statement (.block items span), w⟩ ⟨n, _, w.inScope⟩ := .block
    obtain ⟨hplaces, hdecls⟩ := hc.places hv.task
    refine ⟨.setStore hnew, hnew.founded, ?_, hplaces, hdecls, fun v h => nomatch h⟩
    show w.world.store.envs.size < (w.world.store.newEnv (some w.env)).2.envs.size
    rw [Store.envs_size_newEnv]
    exact Nat.lt_succ_self _
  part hv hc _ hk hvalues _ := hv.next hc hk hvalues

namespace Visit

/-- However a visit ends that comes from the origin, it settles. -/
theorem From.settled (ho : o.HonestHost) (ha : O.Admits o) {v : Visit} (h : v.From O) :
    O.regime.Holds v.state (O.regime.Gives v.state v.task) (v.outcome o) :=
  (O.lawful ho ha).holds v.fuel v.task v.state h

theorem From.final (ho : o.HonestHost) (ha : O.Admits o) {v : Visit} (h : v.From O) :
    v.state.Evolves O.declared (v.final o) := by
  have hs := h.settled ho ha
  unfold Visit.final
  cases hr : v.outcome o with
  | ok a w | error i w =>
    rw [hr] at hs
    exact hs.1

theorem From.calls (ho : o.HonestHost) (ha : O.Admits o) {v u : Visit} (h : v.From O) (hc : v.Calls o u) :
    u.From O :=
  ((O.lawful ho ha).calls h hc).1

end Visit

end Eleu

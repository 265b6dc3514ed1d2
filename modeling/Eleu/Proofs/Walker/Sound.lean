import Eleu.Proofs.Library.Host
import Eleu.Proofs.Scope.Setting
import Eleu.Proofs.Walker.Conserves

/-! # Where the walker stands

    A visit is `Placed` in a setting if its task follows the rules at some context, and the current
    environment is the innermost of a chain of instances of that context. The visits that a placed
    visit leads to are placed (`Visit.Placed.calls`), and however a task ends, the walker is left
    in the environment and with the calls it had, and with a store that has only grown and keeps
    the law for functions (`Visit.sound`). -/

namespace Eleu

/-- The visit makes the environment for the site. -/
inductive Visit.Makes (o : Options) : Visit → EnvRef → Site → Prop where
  | block {w : Walker} :
      Makes o ⟨n + 1, .statement (.block body span), w⟩ w.world.store.envs.size (.block span)
  | call {w : Walker} {c : Closure} (room : w.calls.length < o.maxCallDepth) :
      Makes o ⟨n + 1, .closure c args span, w⟩ w.world.store.envs.size (.function c.decl.id)
  | super {w : Walker} (found : Walk.lookup parent w = .ok v w)
      (declared : Store.declareClass w.env name (some v) methods w.world.store = .ok () s) :
      Makes o ⟨n + 1, .statement (.class name (some parent) methods span), w⟩
        w.world.store.envs.size (.super span)

/-- The visit, of a class statement in the environment, adds the method to the class. -/
inductive Visit.Adds : Visit → EnvRef → ClassRef → Closure → Prop where
  | intro {w : Walker} (found : Option.Rel (fun ident v => Walk.lookup ident w = .ok v w) parent superclass)
      (adds : w.world.store.Adds w.env name superclass methods r c) :
      Adds ⟨n + 1, .statement (.class name parent methods span), w⟩ w.env r c

/-- What comes about in the visit itself. -/
def Visit.deeds (o : Options) (v : Visit) : History := ⟨v.Makes o, v.Adds⟩

/-- The bodies of known functions follow the rules. -/
def Setting.Covers (S : Setting) (d : Distances) : Prop :=
  ∀ {decl : FunctionDecl} {Γ : Context}, S.rules.known decl Γ →
    ∃ role, itemsFollow S.rules d (some role) false (decl.scope :: Γ) decl.body

/-- All that comes about from a visit on is in the history of the setting. -/
def Visit.Making (S : Setting) (o : Options) (v : Visit) : Prop :=
  ∀ v', v.Leads o v' → (v'.deeds o).Within S.history

theorem Visit.Making.calls {S : Setting} {o : Options} {v v' : Visit} (h : v.Making S o)
    (hc : v.Calls o v') : v'.Making S o :=
  fun v'' hl => h v'' (.head hc hl)

/-! ## Places -/

/-- A task that the walker sets about has its place at a context with the property `P`. -/
def Task.Placed (S : Setting) (d : Distances) (s : Store) (P : Context → Prop) : Task → Prop
  | .expr x => ∃ p Γ, x.Follows S.rules d p Γ ∧ P Γ
  | .exprs xs => ∃ p Γ, exprsFollow S.rules d p Γ xs ∧ P Γ
  | .call f args _ => f.Obeys S.law s ∧ ∀ v ∈ args, v.Obeys S.law s
  | .closure c args _ =>
    Value.Obeys S.law s (.callable (.closure c)) ∧ (∀ v ∈ args, v.Obeys S.law s) ∧ c.decl.params.length = args.length
  | .item i | .statement i => ∃ role loop Γ, i.Follows S.rules d role loop Γ ∧ P Γ
  | .items is => ∃ role loop Γ, itemsFollow S.rules d role loop Γ is ∧ P Γ
  | .whileLoop c body increment =>
    ∃ role Γ, c.Follows S.rules d none Γ ∧ (body.declared? = none ∧ body.Follows S.rules d role true Γ)
      ∧ (∀ x ∈ increment, x.Follows S.rules d none Γ) ∧ P Γ
  | .repeatLoop _ body =>
    ∃ role Γ, (body.declared? = none ∧ body.Follows S.rules d role true Γ) ∧ P Γ
  | .program is => ∃ Γ, itemsFollow S.rules d none false Γ is ∧ P Γ

/-- A visit has its place. -/
structure Visit.Placed (S : Setting) (v : Visit) : Prop where
  covers : S.Covers v.state.distances
  store : v.state.world.store.Obeys S.law
  task : v.task.Placed S v.state.distances v.state.world.store
    (Chain S.history v.state.world.store v.state.env)

/-- What is left of the state `w` after a task. -/
structure Walker.Kept (S : Setting) (w w' : Walker) : Prop where
  store : w'.world.store.Obeys S.law
  grows : w.world.store.Grows Reserved w'.world.store
  env : w'.env = w.env
  globals : w'.globals = w.globals
  distances : w'.distances = w.distances
  calls : w'.calls = w.calls

variable {S : Setting} {o : Options} {n : Nat} {w w' : Walker}

namespace Walker.Kept

theorem refl (h : w.world.store.Obeys S.law) : w.Kept S w :=
  ⟨h, .refl _ _, rfl, rfl, rfl, rfl⟩

theorem trans {w'' : Walker} (h : w.Kept S w') (h' : w'.Kept S w'') : w.Kept S w'' :=
  ⟨h'.store, h.grows.trans h'.grows, h'.env.trans h.env, h'.globals.trans h.globals,
    h'.distances.trans h.distances, h'.calls.trans h.calls⟩

theorem setStore {s : Store} (h : s.Obeys S.law) (hg : w.world.store.Grows Reserved s) :
    w.Kept S (w.setStore s) :=
  ⟨h, hg, rfl, rfl, rfl, rfl⟩

/-- A variable is given a value. -/
theorem define (h : w.world.store.Obeys S.law) (a : EnvRef) {name : String} (hn : ¬ Reserved name)
    {v : Value} (hv : v.Obeys S.law w.world.store) : w.Kept S (w.setStore (w.world.store.define a name v)) :=
  have hg : w.world.store.Grows Reserved (w.world.store.define a name v) := .define _ a (.inl hn) v
  setStore (h.define hg (hv.grows hg)) hg

end Walker.Kept

/-- What is called for a task has its place too, unless it is done in a scope of its own. -/
theorem Task.Placed.part {t t' : Task} {d : Distances} {P P' : Context → Prop}
    (ht : t.Placed S d w.world.store P) (hc : Visit.Calls o ⟨n + 1, t, w⟩ ⟨n, t', w'⟩)
    (hopens : t.opens = false) (hv : ∀ v ∈ t'.values, v.Obeys S.law w'.world.store)
    (hP : ∀ Γ, P Γ → P' ((t.passed t').elim Γ fun i => i.after Γ)) :
    t'.Placed S d w'.world.store P' := by
  cases hc with
  | body | block => cases hopens
  | call => exact ⟨hv _ (.head _), fun v h => hv v (.tail _ h)⟩
  | closure arity =>
    exact ⟨hv _ (.head _), fun v h => hv v (.tail _ h), Store.length_params arity⟩
  | init arity found =>
    have hlen := Store.length_params_init arity found
    exact ⟨hv _ (.head _), fun v h => hv v (.tail _ h), hlen⟩
  -- expressions
  | list | unary | group | getField =>
    obtain ⟨p, Γ, hf, hchain⟩ := ht
    exact ⟨p, Γ, hf, hP Γ hchain⟩
  | binaryLeft | logicalLeft | args | setFieldObject | first =>
    obtain ⟨p, Γ, hf, hchain⟩ := ht
    exact ⟨p, Γ, hf.1, hP Γ hchain⟩
  | binaryRight | logicalRight | callee | setFieldValue | rest =>
    obtain ⟨p, Γ, hf, hchain⟩ := ht
    exact ⟨p, Γ, hf.2, hP Γ hchain⟩
  | assign =>
    obtain ⟨p, Γ, hf, hchain⟩ := ht
    exact ⟨p, Γ, hf.2.1, hP Γ hchain⟩
  -- items
  | statement =>
    obtain ⟨role, loop, Γ, hf, hchain⟩ := ht
    exact ⟨role, loop, Γ, hf, hP Γ hchain⟩
  | firstItem =>
    obtain ⟨role, loop, Γ, hf, hchain⟩ := ht
    exact ⟨role, loop, Γ, hf.1, hP Γ hchain⟩
  | restItems =>
    obtain ⟨role, loop, Γ, hf, hchain⟩ := ht
    exact ⟨role, loop, _, hf.2, hP Γ hchain⟩
  | firstOfProgram =>
    obtain ⟨Γ, hf, hchain⟩ := ht
    exact ⟨none, false, Γ, hf.1, hP Γ hchain⟩
  | restOfProgram =>
    obtain ⟨Γ, hf, hchain⟩ := ht
    exact ⟨_, hf.2, hP Γ hchain⟩
  -- statements
  | exprItem | assert | assertFails =>
    obtain ⟨role, loop, Γ, hf, hchain⟩ := ht
    exact ⟨none, Γ, hf, hP Γ hchain⟩
  | var | «return» =>
    obtain ⟨role, loop, Γ, hf, hchain⟩ := ht
    exact ⟨_, Γ, hf.2 _ rfl, hP Γ hchain⟩
  | ifThenTest | ifElseTest | repeatCount =>
    obtain ⟨role, loop, Γ, hf, hchain⟩ := ht
    exact ⟨none, Γ, hf.1, hP Γ hchain⟩
  | ifThen =>
    obtain ⟨role, loop, Γ, hf, hchain⟩ := ht
    exact ⟨role, loop, Γ, hf.2.2, hP Γ hchain⟩
  | ifElseThen =>
    obtain ⟨role, loop, Γ, hf, hchain⟩ := ht
    exact ⟨role, loop, Γ, hf.2.1.2, hP Γ hchain⟩
  | ifElseElse =>
    obtain ⟨role, loop, Γ, hf, hchain⟩ := ht
    exact ⟨role, loop, Γ, hf.2.2.2, hP Γ hchain⟩
  | «while» =>
    obtain ⟨role, loop, Γ, hf, hchain⟩ := ht
    exact ⟨role, Γ, hf.1, hf.2.1, hf.2.2, hP Γ hchain⟩
  | «repeat» =>
    obtain ⟨role, loop, Γ, hf, hchain⟩ := ht
    exact ⟨role, Γ, hf.2, hP Γ hchain⟩
  -- loops
  | whileTest =>
    obtain ⟨role, Γ, hcond, hbody, hincr, hchain⟩ := ht
    exact ⟨none, Γ, hcond, hP Γ hchain⟩
  | whileBody =>
    obtain ⟨role, Γ, hcond, hbody, hincr, hchain⟩ := ht
    exact ⟨role, true, Γ, hbody.2, hP Γ hchain⟩
  | increment =>
    obtain ⟨role, Γ, hcond, hbody, hincr, hchain⟩ := ht
    exact ⟨none, Γ, hincr _ rfl, hP Γ hchain⟩
  | whileAgain | forAgain =>
    obtain ⟨role, Γ, hcond, hbody, hincr, hchain⟩ := ht
    exact ⟨role, Γ, hcond, hbody, hincr, hP Γ hchain⟩
  | repeatBody =>
    obtain ⟨role, Γ, hbody, hchain⟩ := ht
    exact ⟨role, true, Γ, hbody.2, hP Γ hchain⟩
  | repeatAgain =>
    obtain ⟨role, Γ, hbody, hchain⟩ := ht
    exact ⟨role, Γ, hbody, hP Γ hchain⟩

namespace Visit

theorem Placed.here {k : Nat} {t t' : Task} (h : Placed S ⟨n, t, w⟩)
    (ht : t'.Placed S w.distances w.world.store (Chain S.history w.world.store w.env)) :
    Placed S ⟨k, t', w⟩ :=
  ⟨h.covers, h.store, ht⟩

/-- What comes after a task has the environment and the distances that the task had. -/
theorem Placed.later {k : Nat} {t t' : Task} (h : Placed S ⟨n, t, w⟩) (hk : w.Kept S w')
    (ht : t'.Placed S w.distances w'.world.store (Chain S.history w'.world.store w.env)) :
    Placed S ⟨k, t', w'⟩ := by
  refine ⟨?_, hk.store, ?_⟩
  · show S.Covers w'.distances
    rw [hk.distances]
    exact h.covers
  · show t'.Placed S w'.distances w'.world.store (Chain S.history w'.world.store w'.env)
    rw [hk.distances, hk.env]
    exact ht

/-- A call that is made in the environment of its caller has its place. -/
theorem Placed.part {t t' : Task} (hp : Placed S ⟨n + 1, t, w⟩)
    (hc : Calls o ⟨n + 1, t, w⟩ ⟨n, t', w'⟩) (hopens : t.opens = false) (hk : w.Kept S w')
    (hv : ∀ v ∈ t'.values, v.Obeys S.law w'.world.store)
    (hpassed : ∀ i ∈ t.passed t', ∀ Γ, Chain S.history w.world.store w.env Γ →
      Chain S.history w'.world.store w.env (i.after Γ)) : Placed S ⟨n, t', w'⟩ := by
  refine hp.later hk (hp.task.part hc hopens hv fun Γ hchain => ?_)
  cases h : t.passed t' with
  | none => exact hchain.grows hk.grows
  | some i => exact hpassed i h Γ hchain

end Visit

/-- What is asked of a walker in a setting: that its visits have their places. An item that was executed
    has declared what stands in the context after it. -/
def Setting.regime (S : Setting) (o : Options) : Walker.Regime where
  visit v := v.Placed S ∧ v.Making S o
  kept := Walker.Kept S
  value s v := v.Obeys S.law s
  leaves i w w' := ∀ Γ, Chain S.history w.world.store w.env Γ → Chain S.history w'.world.store w.env (i.after Γ)
  origin := .all
  cause c := o.DynamicHost → c.kind ≠ .resolve

theorem Setting.lawful (S : Setting) (ho : o.TameHost) : (S.regime o).Lawful o where
  here hv := .refl hv.1.store
  last hk := .refl hk.store
  trans := Walker.Kept.trans
  carry hk hv := S.law.value_grows hk.grows hv
  places _ _ _ := trivial
  values {v} hv := by
    obtain ⟨k, t, w⟩ := v
    have ht := hv.1.task
    cases t with
    | call f args span => exact List.forall_mem_cons.2 ht
    | closure c args span => exact List.forall_mem_cons.2 ⟨ht.1, ht.2.1⟩
    | _ => exact fun x hx => nomatch hx
  inert := S.law.inert
  getAt e name d hk := hk.store.getAt e name d
  get e name hk := hk.store.get e name
  member {w r name m} hk hm :=
    ⟨.setStore (hk.store.take m) (.take _ m), Store.Obeys.value_take (hk.store.findMember hm)⟩
  superMember {w e d name m} hk hm :=
    ⟨.setStore (hk.store.take m) (.take _ m), Store.Obeys.value_take (hk.store.findSuper hm)⟩
  native {w} f args hk hargs := by
    have h := NativeM.call_tame ho S.law_onFunctions f hk.store hargs
    cases hr : NativeM.call o f args w.world with
    | ok v world =>
      rw [hr] at h
      exact ⟨⟨h.2.1, h.2.2.toGrows, rfl, rfl, rfl, rfl⟩, h.1⟩
    | error g world =>
      rw [hr] at h
      refine ⟨⟨h.2.1, h.2.2.toGrows, rfl, rfl, rfl, rfl⟩, g.from_all, fun hd => ?_⟩
      have hdynamic := NativeM.call_dynamic hd f args w.world
      rw [hr] at hdynamic
      exact hdynamic
  dynamic hc _ := hc.kind_ne
  list hk hvs := .setStore (hk.store.newList fun v hv => hvs v (by simpa using hv)) (.of_eq rfl rfl)
  field r name hk hv := .setStore (hk.store.setField r name hv) (.of_eq rfl rfl)
  newInstance q hk := .setStore (hk.store.newInstance q) (.of_eq rfl rfl)
  bound {w q m} hk hm := by
    have hnew : w.world.store.Grows Reserved (w.world.store.newInstance q).2 := .of_eq rfl rfl
    obtain ⟨r, hmethod⟩ := (hk.store.newInstance q).findMethod? hm
    exact ⟨.setStore ((hk.store.newInstance q).bind m _) (hnew.trans (.bind _ m _)),
      S.law.value_bind _ hmethod⟩
  assign _ hv hk hx := by
    obtain ⟨p, Γ, hf, -⟩ := hv.1.task
    exact .define hk.store _ hf.1 hx
  varItem hv hk hx := by
    obtain ⟨role, loop, Γ, hf, -⟩ := hv.1.task
    have hn := S.rules.named hf.1
    exact ⟨.define hk.store _ hn hx, fun Γ hc => hc.declare hn _⟩
  functionItem hv hs := by
    obtain ⟨role, loop, Γ, ⟨⟨hkind, -⟩, hdecl⟩, hchain⟩ := hv.1.task
    obtain ⟨hknown, hn, -, -⟩ := FunctionDecl.follows_iff.1 hdecl
    rw [hs]
    exact ⟨.setStore (Setting.obeys_function hv.1.store hchain hn hkind hknown) (.define _ _ (.inl hn) _),
      fun Γ hc => hc.declare hn _⟩
  classItem {n w name parent methods span superclass s} hv hp hx hd := by
    obtain ⟨role, loop, Γ, ⟨hd', ⟨hplain, -⟩, hms⟩, hchain⟩ := hv.1.task
    have hn := S.rules.named hd'
    have hsome : superclass.isSome = parent.isSome := by cases hp <;> rfl
    -- with a superclass there is a scope for it around the methods
    have hmade : superclass.isSome → S.history.made w.world.store.envs.size (.super span) := by
      intro hsup
      cases hp with
      | none => cases hsup
      | some hl => exact (hv.2 _ .refl).made _ _ (.super hl hd)
    have hobeys : s.Obeys S.law := by
      refine Setting.obeys_class hv.1.store hchain hplain hn hx (fun d hd' => ?_) hd hmade
        fun r c ha => (hv.2 _ .refl).added _ r c (.intro hp ha)
      rw [hsome]
      exact ⟨(hms.mem hd').1, (FunctionDecl.follows_iff.1 (hms.mem hd').2).1⟩
    exact ⟨.setStore hobeys (.declareClass hn hd), fun Γ hc => hc.declareClass hn hd⟩
  unchanged hi hk := by
    intro Γ hc
    rw [Item.after, hi]
    exact hc.grows hk.grows
  later hk h := fun Γ hc => hk.env ▸ h Γ (hk.env.symm ▸ hc.grows hk.grows)
  poll {w} hk :=
    ⟨World.store_poll w.world o ▸ hk.store, .of_eq (congrArg Store.envs (World.store_poll w.world o))
      (congrArg Store.classes (World.store_poll w.world o)),
      rfl, rfl, rfl, rfl⟩
  count _ hk := ⟨hk.store, hk.grows, hk.env, hk.globals, hk.distances, hk.calls⟩
  trace _ hk := ⟨hk.store, hk.grows, hk.env, hk.globals, hk.distances, hk.calls⟩
  scope _ hk := ⟨hk.store, hk.grows, rfl, hk.globals, hk.distances, hk.calls⟩
  call _ hk := ⟨hk.store, hk.grows, hk.env, hk.globals, hk.distances, congrArg List.tail hk.calls⟩
  body {n w c args span} hv room := by
    obtain ⟨⟨-, Γ, hknown, hchain⟩, hargs, hlen⟩ := hv.1.task
    obtain ⟨role, hf⟩ := hv.1.covers hknown
    have hcall := hv.1.store.callStore c hargs
    exact ⟨.setStore hcall (.callStore _ c args), ⟨hv.1.covers, hcall, some role, false, _, hf,
      hchain.call ((hv.2 _ .refl).made _ _ (.call room)) hlen⟩, hv.2.calls (.body room)⟩
  block hv := by
    obtain ⟨role, loop, Γ, hf, hchain⟩ := hv.1.task
    exact ⟨.setStore (hv.1.store.newEnv _) (.newEnv _ _), ⟨hv.1.covers, hv.1.store.newEnv _, role, loop, _,
      hf, hchain.enter ((hv.2 _ .refl).made _ _ .block)⟩, hv.2.calls .block⟩
  part hv hc hopens hk hvalues hpassed := ⟨hv.1.part hc hopens hk hvalues hpassed, hv.2.calls hc⟩

namespace Visit

/-- A task that has its place is done soundly, whatever the fuel. -/
theorem sound (ho : o.TameHost) (n : Nat) (t : Task) (w : Walker) (hp : Placed S ⟨n, t, w⟩)
    (hm : Making S o ⟨n, t, w⟩) : (S.regime o).Holds w ((S.regime o).Gives w t) (t.run o n w) :=
  (S.lawful ho).holds n t w ⟨hp, hm⟩

/-- The calls of a visit that has its place have their places. -/
theorem Placed.calls (ho : o.TameHost) {v v' : Visit} (hp : v.Placed S) (hm : v.Making S o)
    (hc : v.Calls o v') : v'.Placed S :=
  ((S.lawful ho).calls ⟨hp, hm⟩ hc).1.1

/-- So do all visits that it leads to. -/
theorem Placed.leads (ho : o.TameHost) {v v' : Visit} (hp : v.Placed S) (hm : v.Making S o)
    (hl : v.Leads o v') : v'.Placed S := by
  induction hl using Relation.ReflTransGen.head_induction_on with
  | refl => exact hp
  | head hc _ ih => exact ih (hp.calls ho hm hc) (hm.calls hc)

/-- An expression is evaluated after another one. -/
theorem Placed.next (ho : o.TameHost) {t : Task} {e : Expr} {x : Value} {p : Option String}
    {Γ : Context} (hp : Placed S ⟨n + 1, t, w⟩) (hm : Making S o ⟨n, .expr e, w⟩)
    (hf : e.Follows S.rules w.distances p Γ) (hc : Chain S.history w.world.store w.env Γ)
    (hr : Walk.expr o n e w = .ok x w') :
    w.Kept S w' ∧ x.Obeys S.law w'.world.store ∧ Chain S.history w'.world.store w.env Γ := by
  have h := sound ho n (.expr e) w (hp.here ⟨p, Γ, hf, hc⟩) hm
  change (S.regime o).Holds w _ (Walk.expr o n e w) at h
  rw [hr] at h
  exact ⟨h.1, h.2, hc.grows h.1.grows⟩

end Visit

end Eleu

import Eleu.Proofs.Scope.Context
import Eleu.Proofs.Store.Functions

/-! # Environments as instances of scopes

    `Chain` relates an environment of a running program to the context of the place that the
    program has reached: going outwards along the parents, each environment is an instance of the
    next static scope. An instance was made for the site of the scope, as the `History` of the run
    records it, and has the names that are declared there so far; the scope of `this` holds an
    instance and the scope of `super` a class. The scope of `this` is that of a method, which
    closes over the scope of the class statement that has added it (`Store.Closes`). A chain never
    breaks, since stores only grow. -/

namespace Eleu

variable {name : String} {c : Closure}

/-- The environment `e` was made for a scope. -/
def Site.OpenedAs (made : EnvRef → Site → Prop) (s : Store) (e : EnvRef) : Site → Prop
  | .this => ∃ r, s.local? e "this" = some (.object r)
  | .super span =>
    made e (.super span) ∧ ∃ r, s.local? e "super" = some (.callable (.classRef r))
  | .block span => made e (.block span)
  | .function id => made e (.function id)

/-- The environment `e` is an instance of a static scope. -/
structure StaticScope.Instance (made : EnvRef → Site → Prop) (s : Store) (scope : StaticScope)
    (e : EnvRef) : Prop where
  opened : scope.site.OpenedAs made s e
  bound : ∀ name ∈ scope.names, s.hasLocal e name = true

/-- What comes about in a run. -/
structure History where
  /-- The environment is made for the site. -/
  made : EnvRef → Site → Prop
  /-- A class statement in the environment adds the method to the class. -/
  added : EnvRef → ClassRef → Closure → Prop

/-- The history in which everything may have come about. -/
def History.all : History := ⟨fun _ _ => True, fun _ _ _ => True⟩

/-- What is in the one history is in the other. -/
structure History.Within (H H' : History) : Prop where
  made : ∀ e site, H.made e site → H'.made e site
  added : ∀ e r c, H.added e r c → H'.added e r c

theorem History.Within.refl (H : History) : H.Within H := ⟨fun _ _ => id, fun _ _ _ => id⟩

theorem History.Within.all (H : History) : H.Within .all :=
  ⟨fun _ _ _ => trivial, fun _ _ _ _ => trivial⟩

/-- A method of the class `r` closes over the environment `e` of a class statement. If the class has
    a superclass, there is a scope in between where this is `super`. -/
structure Store.Closes (s : Store) (r : ClassRef) (c : Closure) (e : EnvRef) : Prop where
  there : r < s.classes.size
  super : ∀ {p}, s.superclass? r = some p →
    s.local? c.env "super" = some (.callable (.classRef p)) ∧ s.parent? c.env = some e
  bare : s.superclass? r = none → c.env = e

/-- The function is a method that a class statement has added to the class `r`. If the class has no
    superclass, `Γ` is a context in which class statements may stand. -/
def History.Method (H : History) (s : Store) (Γ : Context) (r : ClassRef) (c : Closure) : Prop :=
  (s.superclass? r = none → Γ.Plain) ∧ ∃ e, H.added e r c ∧ s.Closes r c e

/-- The environments from `e` outwards are instances of the scopes of a context. -/
def Chain (H : History) (s : Store) : EnvRef → Context → Prop
  | _, [] => True
  | e, scope :: outer =>
    scope.Instance H.made s e
      ∧ (scope.site = .this → ∃ r c, H.Method s outer r c ∧ s.parent? e = some c.env)
      ∧ ∃ p, (s.env e).parent = some p ∧ Chain H s p outer

variable {H : History} {made : EnvRef → Site → Prop} {s t : Store} {e : EnvRef} {Γ : Context}

/-- An environment that belongs to a scope is inside another. -/
theorem Chain.parent (h : Chain H s e Γ) (hΓ : Γ ≠ []) : ∃ p, (s.env e).parent = some p := by
  cases Γ with
  | nil => exact absurd rfl hΓ
  | cons scope outer =>
    obtain ⟨-, -, p, hp, -⟩ := h
    exact ⟨p, hp⟩

theorem Store.Closes.grows {r : ClassRef} (hg : s.Grows Reserved t) (h : s.Closes r c e) :
    t.Closes r c e := by
  have hsuper : t.superclass? r = s.superclass? r := hg.superclass r h.there
  refine ⟨Nat.lt_of_lt_of_le h.there hg.classes, fun {p} hp => ?_, fun hp => h.bare (hsuper ▸ hp)⟩
  obtain ⟨hl, hparent⟩ := h.super (hsuper ▸ hp)
  exact ⟨(hg.fixed hparent "super" (.inr rfl)).trans hl,
    (hg.parent _ (Store.parent_lt_size hparent)).trans hparent⟩

theorem History.Method.grows {r : ClassRef} (hg : s.Grows Reserved t) (h : H.Method s Γ r c) :
    H.Method t Γ r c := by
  obtain ⟨hplain, a, hadded, hcloses⟩ := h
  exact ⟨fun hp => hplain ((hg.superclass r hcloses.there).symm.trans hp), a, hadded, hcloses.grows hg⟩

theorem StaticScope.Instance.grows {scope : StaticScope} (hg : s.Grows Reserved t)
    (h : scope.Instance made s e) {p : EnvRef} (hp : (s.env e).parent = some p) :
    scope.Instance made t e := by
  obtain ⟨site, names⟩ := scope
  refine ⟨?_, fun name hn => hg.bound e name (h.bound name hn)⟩
  cases site with
  | block span => exact h.opened
  | function id => exact h.opened
  | super span =>
    obtain ⟨hm, r, hr⟩ := h.opened
    exact ⟨hm, r, by rw [hg.fixed hp "super" (.inr rfl), hr]⟩
  | this =>
    obtain ⟨r, hr⟩ := h.opened
    exact ⟨r, by rw [hg.fixed hp "this" (.inl rfl), hr]⟩

namespace Chain

/-- A chain goes over to every later store. -/
theorem grows (hg : s.Grows Reserved t) (h : Chain H s e Γ) : Chain H t e Γ := by
  induction Γ generalizing e with
  | nil => trivial
  | cons scope outer ih =>
    obtain ⟨hi, hthis, p, hp, ho⟩ := h
    have hparent := hg.parent e (Store.parent_lt_size hp)
    refine ⟨hi.grows hg hp, fun hsite => ?_, p, hparent.trans hp, ih ho⟩
    obtain ⟨r, c, hm, hc⟩ := hthis hsite
    exact ⟨r, c, hm.grows hg, hparent.trans hc⟩

/-- As many scopes as the context has can be left. -/
theorem ancestor (h : Chain H s e Γ) {n : Nat} (hn : n ≤ Γ.length) :
    ∃ a, s.ancestor? e n = some a ∧ Chain H s a (Γ.drop n) := by
  induction n generalizing e Γ with
  | zero => exact ⟨e, rfl, h⟩
  | succ n ih =>
    cases Γ with
    | nil => exact absurd hn (Nat.not_succ_le_zero n)
    | cons scope outer =>
      obtain ⟨-, -, p, hp, ho⟩ := h
      obtain ⟨a, ha, hc⟩ := ih ho (Nat.le_of_succ_le_succ hn)
      exact ⟨a, by rw [Store.ancestor?_succ, hp]; exact ha, hc⟩

/-- The scope that a context has at a distance is that of the environment at this distance. -/
theorem instance_at (h : Chain H s e Γ) {n : Nat} {scope : StaticScope}
    (hn : Γ[n]? = some scope) : ∃ a, s.ancestor? e n = some a ∧ scope.Instance H.made s a := by
  obtain ⟨hlt, hget⟩ := List.getElem?_eq_some_iff.1 hn
  obtain ⟨a, ha, hc⟩ := h.ancestor (Nat.le_of_lt hlt)
  rw [List.drop_eq_getElem_cons hlt, hget] at hc
  exact ⟨a, ha, hc.1⟩

/-- After a variable has got its value, it is one of the names of the innermost scope. -/
theorem declare (h : Chain H s e Γ) (hn : ¬ Reserved name) (v : Value) :
    Chain H (s.define e name v) e (Γ.declare name) := by
  have hg : s.Grows Reserved (s.define e name v) := .define s e (.inl hn) v
  cases Γ with
  | nil => trivial
  | cons scope outer =>
    obtain ⟨hi', hthis, p, hp, ho⟩ := h.grows hg
    have he : e < s.envs.size := by simpa using Store.parent_lt_size hp
    refine ⟨⟨hi'.opened, fun other ho => ?_⟩, hthis, p, hp, ho⟩
    cases ho with
    | head => exact (Store.hasLocal_iff _ _ _).2 ⟨v, by rw [Store.local?_define, if_pos ⟨rfl, he, rfl⟩]⟩
    | tail _ ho => exact hi'.bound other ho

/-- A new environment is an instance of a scope without names. -/
theorem enter (h : Chain H s e Γ) {span : Span} (hm : H.made s.envs.size (.block span)) :
    Chain H (s.newEnv (some e)).2 s.envs.size ({ site := .block span } :: Γ) := by
  refine ⟨⟨hm, fun name hn => nomatch hn⟩, nofun, e, ?_, h.grows (.newEnv s (some e))⟩
  rw [Store.env_newEnv, if_pos rfl]

/-- Binding a method to an instance opens the scope of `this`. -/
theorem bind {r : ClassRef} (h : Chain H s c.env Γ) (hm : H.Method s Γ r c) (i : InstanceRef) :
    Chain H (s.bind c i).2 s.envs.size ({ site := .this, names := ["this"] } :: Γ) := by
  have hl : (s.bind c i).2.local? s.envs.size "this" = some (.object i) := by
    rw [show (s.bind c i).2 = (s.newEnv (some c.env)).2.define s.envs.size "this" (.object i) from rfl,
      Store.local?_define, if_pos ⟨rfl, by simp, rfl⟩]
  have hparent : (s.bind c i).2.parent? s.envs.size = some c.env := by
    rw [show (s.bind c i).2 = (s.newEnv (some c.env)).2.define s.envs.size "this" (.object i) from rfl,
      Store.parent?, Store.parent_define, Store.env_newEnv, if_pos rfl]
  refine ⟨⟨⟨i, hl⟩, fun name hn => ?_⟩, fun _ => ⟨r, c, hm.grows (.bind s c i), hparent⟩, c.env, hparent,
    h.grows (.bind s c i)⟩
  rw [List.mem_singleton.1 hn]
  exact (Store.hasLocal_iff _ _ _).2 ⟨_, hl⟩

end Chain

/-! ## Calls -/

/-- What has its value keeps one while the parameters get theirs. -/
theorem Store.hasLocal_defineAll_of {names : List String} {vs : List Value}
    (h : s.hasLocal e name = true) : (s.defineAll e names vs).hasLocal e name = true := by
  induction names generalizing s vs with
  | nil => exact h
  | cons n names ih =>
    cases vs with
    | nil => exact h
    | cons v vs =>
      exact ih ((Store.Grows.define (K := fun _ => False) s e (.inl id) v).bound e name h)

/-- All parameters are bound if there are as many arguments. -/
theorem Store.hasLocal_defineAll (he : e < s.envs.size) {names : List String} {vs : List Value}
    (hlen : names.length = vs.length) (hn : name ∈ names) :
    (s.defineAll e names vs).hasLocal e name = true := by
  induction names generalizing s vs with
  | nil => exact nomatch hn
  | cons n names ih =>
    cases vs with
    | nil => exact nomatch hlen
    | cons v vs =>
      cases hn with
      | head =>
        have hv : (s.define e name v).hasLocal e name = true :=
          (Store.hasLocal_iff _ _ _).2 ⟨v, by rw [Store.local?_define, if_pos ⟨rfl, he, rfl⟩]⟩
        rw [Store.defineAll]
        exact Store.hasLocal_defineAll_of hv
      | tail _ hn => exact ih (by simpa using he) (by simpa using hlen) hn

/-- A call opens the scope of the function. -/
theorem Chain.call {args : List Value} (h : Chain H s c.env Γ)
    (hm : H.made s.envs.size (.function c.decl.id)) (hlen : c.decl.params.length = args.length) :
    Chain H (s.callStore c args) s.envs.size (c.decl.scope :: Γ) := by
  refine ⟨⟨hm, fun name hn => ?_⟩, nofun, c.env, ?_, h.grows (.callStore s c args)⟩
  · exact Store.hasLocal_defineAll (by simp) hlen hn
  · exact Store.parent_callStore s c args

/-! ## Class statements -/

/-- A class statement opens the scope of `super` for its methods if there is a superclass. -/
theorem Chain.methodScope {p : Option ClassRef} (hg : (s.methodScope e p).2.Grows Reserved t)
    (h : Chain H t e Γ) {span : Span} (hm : p.isSome → H.made s.envs.size (.super span)) :
    Chain H t (s.methodScope e p).1 (Context.ofMethods p.isSome span Γ).tail := by
  cases p with
  | none => exact h
  | some r =>
    obtain ⟨hl, hp⟩ := s.methodScope_super e r
    have hsize := Store.parent_lt_size hp
    have hi : StaticScope.Instance H.made (s.methodScope e (some r)).2
        { site := .super span, names := ["super"] } s.envs.size := by
      refine ⟨⟨hm rfl, r, hl⟩, fun name hn => ?_⟩
      rw [List.mem_singleton.1 hn]
      exact (Store.hasLocal_iff _ _ _).2 ⟨_, hl⟩
    exact ⟨hi.grows hg hp, nofun, e, (hg.parent _ hsize).trans hp, h⟩

/-- After a class statement, its name is one of those of the innermost scope. -/
theorem Chain.declareClass (h : Chain H s e Γ) (hn : ¬ Reserved name) {superclass : Option Value}
    {methods : List FunctionDecl} (hd : Store.declareClass e name superclass methods s = .ok () t) :
    Chain H t e (Γ.declare name) := by
  obtain ⟨p, r, s₁, -, hr, rfl⟩ := Store.declareClass_eq_ok hd
  have h₂ := h.grows ((Store.Grows.openClass hr).trans (.methodScope s₁ e p))
  exact (h₂.declare hn _).grows (.addMethods ..)

end Eleu

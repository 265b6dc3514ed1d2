import Eleu.Proofs.Library.Results
import Eleu.Proofs.Scope.Chain

/-! # Settings

    A `Setting` fixes what a running program is judged by: the rules that its text follows, and what
    may come about in the run. It yields a law for functions (`Setting.law`): a
    function closes over environments that are instances of the scopes around its declaration,
    and it is an initialiser if its declaration says so. The statements that declare something
    keep this law, whoever executes them. -/

namespace Eleu

/-- The environment has no names but those of the innermost scope. -/
def Store.Within (s : Store) (e : EnvRef) (Γ : Context) : Prop :=
  ∀ scope ∈ Γ.head?, ∀ name, s.hasLocal e name = true → name ∈ scope.names

theorem Store.Within.declare {s t : Store} {e : EnvRef} {Γ : Context} {name : String} (h : s.Within e Γ)
    (hn : ∀ {x}, t.hasLocal e x = true → s.hasLocal e x = true ∨ x = name) :
    t.Within e (Γ.declare name) := by
  cases Γ with
  | nil => exact fun _ hs => nomatch hs
  | cons scope outer =>
    rintro _ ⟨⟩ x hx
    rcases hn hx with hx | rfl
    · exact .tail _ (h scope rfl x hx)
    · exact .head _

/-- What a running program is judged by. -/
structure Setting where
  rules : Rules
  stable : rules.Stable
  history : History
  /-- The context in which the body of a declaration that stands at the given context is judged: with
      its own scope and those around it, or with none. -/
  start : FunctionDecl → Context → Context
  start_eq : ∀ decl Γ, start decl Γ = [] ∨ start decl Γ = decl.scope :: Γ

/-- A class statement in `e` opens the class `r`, and the function is one of its methods. -/
def Store.Adds (s : Store) (e : EnvRef) (name : String) (superclass : Option Value)
    (methods : List FunctionDecl) (r : ClassRef) (c : Closure) : Prop :=
  ∃ p t, s.superclassOf superclass = .ok p ∧ Store.openClass e name p s = .ok r t
    ∧ ∃ d ∈ methods, c = methodOf (s.methodScope e p).1 d

/-- The methods of a class statement close over its environment. -/
theorem Store.closes_methodOf {s t : Store} {e : EnvRef} {name : String} {p : Option ClassRef}
    {r : ClassRef} (h : Store.openClass e name p s = .ok r t) (hr : r < t.classes.size)
    (d : FunctionDecl) :
    (t.methodScope e p).2.Closes r (methodOf (t.methodScope e p).1 d) e := by
  have hp := openClass_superclass h
  cases p with
  | none =>
    refine ⟨hr, fun {q} hq => ?_, fun _ => rfl⟩
    exact nomatch hp.symm.trans hq
  | some q =>
    refine ⟨hr, fun {q'} hq => ?_, fun hq => ?_⟩
    · obtain rfl : q = q' := Option.some.inj (hp.symm.trans hq)
      exact t.methodScope_super e q
    · exact nomatch hp.symm.trans hq

namespace Setting

/-- A function closes over the context of its declaration. A method does so once it is bound, and was
    added by a class statement. -/
def law (S : Setting) : StoreLaw Reserved where
  value s v := v.IfFunction fun c =>
    c.isInit = c.decl.isInitialiser ∧ ∃ Γ, S.rules.known c.decl Γ ∧ Chain S.history s c.env Γ
  method s r c :=
    c.isInit = c.decl.isInitialiser
      ∧ ∃ Γ, S.rules.known c.decl ({ site := .this, names := ["this"] } :: Γ)
          ∧ Chain S.history s c.env Γ ∧ S.history.Method s Γ r c
  value_grows {_ _ v} hg hv := by
    match v, hv with
    | .callable (.closure c), ⟨hi, Γ, hk, hc⟩ => exact ⟨hi, Γ, hk, hc.grows hg⟩
    | .nil, _ | .bool _, _ | .number _, _ | .string _, _ | .list _, _ | .object _, _
    | .callable (.native _), _ | .callable (.classRef _), _ => trivial
  method_grows := fun hg ⟨hi, Γ, hk, hc, hm⟩ => ⟨hi, Γ, hk, hc.grows hg, hm.grows hg⟩
  inert h := h.plain.ifFunction _
  newClass _ _ _ := trivial
  value_bind := fun i ⟨hi, _, hk, hc, hm⟩ => ⟨hi, _, hk, hc.bind hm i⟩

theorem law_onFunctions (S : Setting) : S.law.OnFunctions := ⟨_, fun _ _ => rfl⟩

variable {S : Setting} {s t : Store} {e : EnvRef} {Γ : Context}

/-- The value of a function statement. -/
def functionValue (decl : FunctionDecl) (e : EnvRef) : Value :=
  .callable (.closure { decl, env := e, isInit := false })

/-- A function statement keeps the law. -/
theorem obeys_function {decl : FunctionDecl} (h : s.Obeys S.law) (hc : Chain S.history s e Γ)
    (hn : ¬ Reserved decl.name) (hf : decl.kind = .function)
    (hk : S.rules.known decl (Γ.declare decl.name)) :
    (s.define e decl.name (functionValue decl e)).Obeys S.law := by
  refine h.define (.define s e (.inl hn) _) ⟨?_, _, hk, hc.declare hn _⟩
  simp [FunctionDecl.isInitialiser, hf]

/-- A class statement keeps the law if what it makes and adds is in the history. -/
theorem obeys_class {name : String} {superclass : Option Value} {methods : List FunctionDecl}
    {span : Span} (h : s.Obeys S.law) (hc : Chain S.history s e Γ) (hplain : Γ.Plain)
    (hn : ¬ Reserved name) (hv : ∀ v ∈ superclass, v.Obeys S.law s)
    (hms : ∀ d ∈ methods, d.kind = .method
      ∧ S.rules.known d (Context.ofMethods superclass.isSome span (Γ.declare name)))
    (hd : Store.declareClass e name superclass methods s = .ok () t)
    (hmade : superclass.isSome → S.history.made s.envs.size (.super span))
    (hadded : ∀ r c, s.Adds e name superclass methods r c → S.history.added e r c) :
    t.Obeys S.law := by
  refine h.declareClass hn hv hd fun p q s₁ hp hq hlt d hd' => ?_
  obtain ⟨hkind, hknown⟩ := hms d hd'
  have hsame : superclass.isSome = p.isSome := by rw [Store.superclassOf_eq_ok hp, Option.isSome_map]
  have hscope := Store.methodScope_fst (Store.openClass_envs hq) e p
  have hcloses := Store.closes_methodOf hq hlt d
  have hg := Store.Grows.define (K := Reserved) (s₁.methodScope e p).2 e (.inl hn)
    (.callable (.classRef q))
  have hdeclared := (hc.grows ((Store.Grows.openClass hq).trans (.methodScope s₁ e p))).declare hn
    (.callable (.classRef q))
  rw [hsame] at hknown
  refine ⟨?_, (Context.ofMethods p.isSome span (Γ.declare name)).tail, hknown, ?_,
    fun hnone => ?_, e, hadded q _ ⟨p, s₁, hp, hq, d, hd', by rw [hscope]⟩, hcloses.grows hg⟩
  · simp [Store.methodOf, FunctionDecl.isInitialiser, hkind]
  · -- the methods close over the scope of `super`, which is made if there is a superclass
    refine Chain.methodScope hg hdeclared fun hp' => ?_
    rw [show s₁.envs.size = s.envs.size by rw [Store.openClass_envs hq]]
    exact hmade (hsame.trans hp')
  · cases p with
    | none => exact Context.plain_declare.2 hplain
    | some p => exact nomatch (Store.openClass_superclass hq).symm.trans hnone

end Setting

/-! ## The lax setting -/

/-- Whatever follows some rules follows the lax ones, with any distances and at any context. -/
theorem Rules.transfer_lax (R : Rules) (d d' : Distances) :
    R.Transfer Rules.lax d d' fun Γ Γ' => Γ.Plain → Γ'.Plain where
  declare h hp := Context.plain_declare.2 (h (Context.plain_declare.1 hp))
  enter _ hp := hp
  plain := id
  known _ h := ⟨R, d, _, h⟩
  reads _ _ := trivial
  writes _ _ := trivial
  supers _ _ := trivial
  declares _ := R.named

/-- The setting in which the body of every function is judged on its own. -/
def Setting.lax : Setting where
  rules := .lax
  stable := ⟨fun _ _ => trivial, fun _ _ => trivial⟩
  history := .all
  start _ _ := []
  start_eq _ _ := .inl rfl

end Eleu

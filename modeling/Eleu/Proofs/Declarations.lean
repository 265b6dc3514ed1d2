import Eleu.Proofs.Machine.Execute
import Eleu.Proofs.Walker.Conserves

/-! # Declarations of names that are bound already

    A variable is declared only where there is none of that name, and a class statement adds to the class
    that the name denotes. A function statement asks nothing: it gives the name another value whatever
    the name denoted. `declarations_of_bound_names` says so of both executors in all their states. -/

namespace Eleu

/-- A declaration is refused because its name is bound already. -/
def Cause.clashes : Cause → Bool
  | .alreadyDeclared _ | .superclassChanged _ => true
  | _ => false

namespace Store

variable {s t : Store} {e : EnvRef} {name : String}

/-- The name denotes the same class before and after. -/
def Reopens (s : Store) (e : EnvRef) (name : String) (t : Store) : Prop :=
  ∃ r, s.local? e name = some (.callable (.classRef r)) ∧ t.local? e name = some (.callable (.classRef r))

theorem local?_eq_none (h : s.hasLocal e name = false) : s.local? e name = none :=
  Option.isNone_iff_eq_none.1 (Option.isSome_eq_false_iff.1 h)

/-- A class statement for a bound name succeeds only for the class that the name denotes. -/
theorem declareClass_reopens {superclass : Option Value} {methods : List FunctionDecl}
    (h : s.hasLocal e name = true) (hd : Store.declareClass e name superclass methods s = .ok () t) :
    s.Reopens e name t := by
  obtain ⟨v, hv⟩ := (hasLocal_iff s e name).1 h
  obtain ⟨p, r, s₁, -, hr, rfl⟩ := declareClass_eq_ok hd
  have hlt : e < (s₁.methodScope e p).2.envs.size := by
    refine Nat.lt_of_lt_of_le (lt_size_of_local? hv) ?_
    rw [← openClass_envs hr]
    exact (Grows.methodScope (K := fun _ => False) s₁ e p).size
  have hafter : (((s₁.methodScope e p).2.define e name (.callable (.classRef r))).addMethods r
      (s₁.methodScope e p).1 methods).local? e name = some (.callable (.classRef r)) := by
    unfold local? env
    rw [addMethods_envs]
    exact (local?_define ..).trans (if_pos ⟨rfl, hlt, rfl⟩)
  rcases openClass_eq_ok hr with ⟨hfree, -⟩ | ⟨hbound, -⟩
  · cases hfree.symm.trans hv
  · exact ⟨r, hbound, hafter⟩

/-- A class statement for a name that is not bound is not refused for the name. -/
theorem declareClass_clashes {superclass : Option Value} {methods : List FunctionDecl} {c : Cause}
    (h : s.hasLocal e name = false) (hd : declareClass e name superclass methods s = .error c t) :
    c.clashes = false := by
  rw [declareClass_apply] at hd
  cases hp : s.superclassOf superclass with
  | error c' =>
    rw [hp] at hd
    cases hd
    unfold superclassOf at hp
    split at hp <;> cases hp
    rfl
  | ok p =>
    have hopen := s.openClass_ends e name p
    rw [hp] at hd
    dsimp only at hd
    cases hr : openClass e name p s with
    | ok r s₁ =>
      rw [hr] at hd
      cases hd
    | error c' s₁ =>
      rw [hr, local?_eq_none h] at hopen
      cases hopen.1

/-- Where a name is bound, it can be given another value. -/
theorem local?_define_bound (h : s.hasLocal e name = true) (v : Value) :
    (s.define e name v).local? e name = some v := by
  obtain ⟨w, hw⟩ := (hasLocal_iff s e name).1 h
  rw [local?_define, if_pos ⟨rfl, lt_size_of_local? hw, rfl⟩]

theorem declare_bound (h : s.hasLocal e name = true) (v : Value) :
    declare e name v s = .error (.alreadyDeclared name) s :=
  (declare_apply s e name v).trans (if_pos h)

end Store

/-! ## The walker -/

/-- The second walker is in the same environment, and variables that were there are there still. -/
structure Walker.Grows (w w' : Walker) : Prop where
  env : w'.env = w.env
  store : w.world.store.Grows (fun _ => False) w'.world.store

theorem Walker.Grows.law {o : Options} (ho : o.HonestHost) : Walker.Law o Walker.Grows where
  refl w := ⟨rfl, .refl _ _⟩
  trans h h' := ⟨h'.env.trans h.env, h.store.trans h'.store⟩
  add w s h := ⟨rfl, h⟩
  native w f args := ⟨rfl, NativeM.call_grows ho f args w.world⟩
  poll w := ⟨rfl, by rw [World.store_poll]; exact .refl _ _⟩
  count w n := ⟨rfl, .refl _ _⟩
  trace w t := ⟨rfl, .refl _ _⟩
  scope e h := ⟨rfl, h.store⟩
  call c h := ⟨h.env, h.store⟩

theorem Walker.lookup_clashes {w : Walker} {name : String} {distance? : Option Nat} {c : Cause}
    (h : w.lookup name distance? = .error c) : c.clashes = false := by
  cases distance? with
  | none =>
    simp only [lookup, Store.get] at h
    split at h <;> cases h
    rfl
  | some d =>
    simp only [lookup, Store.getAt] at h
    split at h
    · cases h
      rfl
    · split at h <;> cases h
      rfl

namespace Walk

variable {o : Options} {n : Nat} {w : Walker} {name : String} {span : Span}

/-- The value that a variable gets at first. -/
def initialiser (o : Options) (n : Nat) : Option Expr → Walk Value
  | some e => expr o n e
  | none => pure .nil

theorem initialiser_grows (ho : o.HonestHost) (init : Option Expr) (w : Walker) :
    w.Grows (Outcome.state (initialiser o n init w)) := by
  cases init with
  | none => exact (Walker.Grows.law ho).refl w
  | some e => exact Task.conserves (Walker.Grows.law ho) n (.expr e) w

theorem statement_var (init : Option Expr) :
    statement o (n + 1) (.var name init span) = (do
      let v ← initialiser o n init
      onStore (Store.declare (← get).env name v)
      return .next) := by
  cases init <;> rfl

/-- The initialiser is evaluated, and then the variable is found to be there. -/
theorem statement_var_bound (ho : o.HonestHost) (h : w.world.store.hasLocal w.env name = true)
    (init : Option Expr) :
    Ends (statement o (n + 1) (.var name init span) w) (fun _ _ => False) fun i w' =>
      w' = Outcome.state (initialiser o n init w) ∧ w'.world.store.hasLocal w.env name = true
        ∧ ∀ v, initialiser o n init w = .ok v w' → i = .fault { cause := .alreadyDeclared name } := by
  have hgrows := initialiser_grows (n := n) ho init w
  have hbound := hgrows.store.bound _ _ h
  rw [statement_var, Outcome.bind_apply]
  cases hr : initialiser o n init w with
  | error i w' =>
    rw [hr] at hbound
    exact ⟨rfl, hbound, fun v hv => by cases hv⟩
  | ok v w' =>
    rw [hr] at hgrows hbound
    have henv : w'.env = w.env := hgrows.env
    have hfails := Store.declare_bound (s := w'.world.store) hbound v
    show Ends ((onStore (Store.declare w'.env name v) >>= _) w') _ _
    rw [Outcome.bind_apply, onStore_apply, henv, hfails]
    exact ⟨rfl, hbound, fun _ _ => rfl⟩

/-- The walker looks the superclass up, and then changes the store as a whole or not at all. -/
theorem statement_class_ends (o : Options) (n : Nat) (name : String) (parent : Option Ident)
    (methods : List FunctionDecl) (span : Span) (w : Walker) :
    Ends (statement o (n + 1) (.class name parent methods span) w)
      (fun _ w' => ∃ superclass, Option.Rel (fun ident v => lookup ident w = .ok v w) parent superclass
        ∧ Store.declareClass w.env name superclass methods w.world.store = .ok () w'.world.store)
      fun i w' => w' = w ∧
        ∀ f, w.world.store.hasLocal w.env name = false → i = .fault f → f.cause.clashes = false := by
  have hdeclare : ∀ superclass, Option.Rel (fun ident v => lookup ident w = .ok v w) parent superclass →
      Ends ((do
        onStore (Store.declareClass (← get).env name superclass methods)
        return Flow.next : Walk Flow) w)
      (fun _ w' => ∃ superclass, Option.Rel (fun ident v => lookup ident w = .ok v w) parent superclass
        ∧ Store.declareClass w.env name superclass methods w.world.store = .ok () w'.world.store)
      fun i w' => w' = w ∧
        ∀ f, w.world.store.hasLocal w.env name = false → i = .fault f → f.cause.clashes = false := by
    intro superclass hp
    show Ends ((onStore (Store.declareClass w.env name superclass methods) >>= _) w) _ _
    rw [Outcome.bind_apply, onStore_apply]
    cases hd : Store.declareClass w.env name superclass methods w.world.store with
    | error c s =>
      obtain rfl := Store.declareClass_atomic _ _ _ _ hd
      refine ⟨rfl, ?_⟩
      rintro _ h ⟨⟩
      exact Store.declareClass_clashes h hd
    | ok u s => exact ⟨superclass, hp, hd⟩
  cases parent with
  | none => exact hdeclare none .none
  | some ident =>
    show Ends (((some <$> lookup ident) >>= _) w) _ _
    rw [Outcome.bind_apply, Outcome.map_apply]
    have hl := lookup_apply (w := w) ident
    cases hv : w.lookup ident.name (w.distance? ident) with
    | error c =>
      rw [hl, hv]
      refine ⟨rfl, ?_⟩
      rintro _ - ⟨⟩
      exact Walker.lookup_clashes hv
    | ok v =>
      rw [hv] at hl
      rw [hl]
      exact hdeclare (some v) (.some hl)

end Walk

/-! ## The machine -/

namespace Exec

variable {o : Options} {m : Machine} {name : String} {span : Option Span}

theorem pop_world (op : Op) (m : Machine) :
    Ends (pop op m) (fun _ m' => m'.world = m.world ∧ m'.env = m.env)
      fun f m' => m'.world = m.world ∧ f.cause.clashes = false := by
  cases hs : m.stack with
  | nil =>
    simp only [pop, Outcome.bind_apply, Outcome.get_apply, hs]
    exact ⟨rfl, rfl⟩
  | cons v st =>
    rw [pop_apply hs]
    exact ⟨rfl, rfl⟩

theorem execute_declareVar_bound (h : m.world.store.hasLocal m.env name = true) :
    Ends (execute o ⟨.declareVar name, span⟩ m) (fun _ _ => False) fun f m' =>
      m'.world = m.world ∧ (m.stack ≠ [] → f = { cause := .alreadyDeclared name }) := by
  cases hs : m.stack with
  | nil =>
    simp only [execute, pop, Outcome.bind_apply, Outcome.get_apply, hs]
    exact ⟨rfl, fun hne => absurd rfl hne⟩
  | cons v st =>
    rw [execute_declareVar hs, if_pos h]
    exact ⟨rfl, fun _ => rfl⟩

/-- The machine takes the superclass from the stack, and then does the same. -/
theorem execute_class_ends (o : Options) (name : String) (methods : List FunctionDecl) (span : Option Span)
    (m : Machine) :
    Ends (execute o ⟨.class name methods, span⟩ m)
      (fun _ m' => ∃ superclass,
        Store.declareClass m.env name superclass methods m.world.store = .ok () m'.world.store)
      fun f m' => m'.world = m.world ∧ (m.world.store.hasLocal m.env name = false → f.cause.clashes = false) := by
  have hdeclare : ∀ (superclass : Option Value) m₁, m₁.world = m.world ∧ m₁.env = m.env → Ends ((do
      onStore (Store.declareClass (← get).env name superclass methods) : Exec Unit) m₁)
      (fun _ m' => ∃ superclass,
        Store.declareClass m.env name superclass methods m.world.store = .ok () m'.world.store)
      fun f m' => m'.world = m.world ∧ (m.world.store.hasLocal m.env name = false → f.cause.clashes = false) := by
    rintro superclass m₁ ⟨hworld, henv⟩
    show Ends (onStore (Store.declareClass m₁.env name superclass methods) m₁) _ _
    rw [onStore_apply, hworld, henv]
    cases hd : Store.declareClass m.env name superclass methods m.world.store with
    | error c s =>
      obtain rfl := Store.declareClass_atomic _ _ _ _ hd
      exact ⟨by rw [← hworld]; rfl, fun h => Store.declareClass_clashes h hd⟩
    | ok u s => exact ⟨superclass, hd⟩
  show Ends (declareClass (.class name methods) name methods m) _ _
  unfold declareClass
  refine ((pop_world _ m).mono (fun _ _ h => h) fun _ _ h => ⟨h.1, fun _ => h.2⟩).bind fun v m₁ h₁ => ?_
  split
  · refine Ends.bind (P := fun _ m' => m'.world = m.world ∧ m'.env = m.env) ?_ hdeclare
    refine Ends.map ((pop_world _ m₁).mono ?_ ?_)
    · exact fun _ m' h => ⟨h.1.trans h₁.1, h.2.trans h₁.2⟩
    · exact fun _ m' h => ⟨h.1.trans h₁.1, fun _ => h.2⟩
  · exact hdeclare none m₁ h₁

end Exec

/-- In every state of either executor, a `var` statement for a name that the current environment binds
    fails, once its initialiser has been evaluated, and has changed nothing else; and a class statement
    for it fails and changes nothing, or the name denotes the same class as before. A function statement
    is the exception: after it the name denotes the new function. -/
theorem declarations_of_bound_names (o : Options) (ho : o.HonestHost) :
    (∀ n w name, w.world.store.hasLocal w.env name = true →
      (∀ init span, Ends (Walk.statement o (n + 1) (.var name init span) w) (fun _ _ => False) fun i w' =>
        w' = Outcome.state (Walk.initialiser o n init w) ∧ w'.world.store.hasLocal w.env name = true
          ∧ ∀ v, Walk.initialiser o n init w = .ok v w' → i = .fault { cause := .alreadyDeclared name })
      ∧ (∀ parent methods span, Ends (Walk.statement o (n + 1) (.class name parent methods span) w)
        (fun _ w' => w.world.store.Reopens w.env name w'.world.store) fun _ w' => w' = w)
      ∧ ∀ decl span, decl.name = name → ∃ w', Walk.statement o (n + 1) (.function decl span) w = .ok .next w'
        ∧ w'.world.store.local? w.env name
          = some (.callable (.closure { decl, env := w.env, isInit := false })))
    ∧ ∀ m name span, m.world.store.hasLocal m.env name = true →
      Ends (Exec.execute o ⟨.declareVar name, span⟩ m) (fun _ _ => False) (fun f m' =>
        m'.world = m.world ∧ (m.stack ≠ [] → f = { cause := .alreadyDeclared name }))
      ∧ (∀ methods, Ends (Exec.execute o ⟨.class name methods, span⟩ m)
        (fun _ m' => m.world.store.Reopens m.env name m'.world.store) fun _ m' => m'.world = m.world)
      ∧ ∀ decl, decl.name = name → ∃ m', Exec.execute o ⟨.function decl, span⟩ m = .ok () m'
        ∧ m'.world.store.local? m.env name
          = some (.callable (.closure { decl, env := m.env, isInit := false })) := by
  refine ⟨fun n w name h => ⟨fun init span => Walk.statement_var_bound ho h init,
    fun parent methods span => ?_, ?_⟩,
    fun m name span h => ⟨Exec.execute_declareVar_bound h, fun methods => ?_, ?_⟩⟩
  · refine (Walk.statement_class_ends o n name parent methods span w).mono ?_ fun _ _ h => h.1
    rintro _ _ ⟨_, -, hd⟩
    exact Store.declareClass_reopens h hd
  · rintro decl span rfl
    exact ⟨_, rfl, Store.local?_define_bound h _⟩
  · refine (Exec.execute_class_ends o name methods span m).mono ?_ fun _ _ h => h.1
    rintro _ _ ⟨_, hd⟩
    exact Store.declareClass_reopens h hd
  · rintro decl rfl
    exact ⟨_, rfl, Store.local?_define_bound h _⟩

/-- The name of a native is bound. -/
theorem declarations_of_bound_names_print :
    ({} : Options).HonestHost ∧ Walker.fresh.world.store.hasLocal Walker.fresh.env "print" = true
      ∧ Ends (Walk.statement {} (0 + 1) (.var "print" none .empty) Walker.fresh) (fun _ _ => False) fun i _ =>
        i = .fault { cause := .alreadyDeclared "print" } := by
  have hbound : Walker.fresh.world.store.hasLocal Walker.fresh.env "print" = true := by decide +kernel
  refine ⟨honest_default, hbound, ?_⟩
  generalize Walker.fresh = w at hbound ⊢
  obtain ⟨hwalker, -⟩ := declarations_of_bound_names {} honest_default
  obtain ⟨hvar, -, -⟩ := hwalker 0 w "print" hbound
  refine (hvar none .empty).mono (fun _ _ h => h) ?_
  rintro i _ ⟨rfl, -, hcause⟩
  exact hcause .nil rfl

/-- Whether the name denotes a function of the script. -/
def Store.hasFunction (s : Store) (e : EnvRef) (name : String) : Bool :=
  match s.local? e name with
  | some (.callable (.closure _)) => true
  | _ => false

/-- A function statement for a variable that has a value is no error: the variable has another value
    afterwards. -/
theorem function_statement_rebinds : ∃ items,
    parseText .stop 0 "t" "var x = 1; fun x() { } print(x);" = .ok items
      ∧ (Walker.fresh.run {} 20 (items.take 1)).2.world.store.hasLocal 0 "x" = true
      ∧ (Walker.fresh.run {} 20 (items.take 1)).2.world.store.hasFunction 0 "x" = false
      ∧ (Walker.fresh.run {} 20 items).1 = some .ok
      ∧ (Walker.fresh.run {} 20 items).2.world.store.hasFunction 0 "x" = true
      ∧ (Machine.fresh.run {} 20 items).1 = some .ok
      ∧ (Machine.fresh.run {} 20 items).2.world.store.hasFunction 0 "x" = true := by
  have hcheck : ((parseText .stop 0 "t" "var x = 1; fun x() { } print(x);").toOption.any fun items =>
      decide ((Walker.fresh.run {} 20 (items.take 1)).2.world.store.hasLocal 0 "x" = true
        ∧ (Walker.fresh.run {} 20 (items.take 1)).2.world.store.hasFunction 0 "x" = false
        ∧ (Walker.fresh.run {} 20 items).1 = some .ok
        ∧ (Walker.fresh.run {} 20 items).2.world.store.hasFunction 0 "x" = true
        ∧ (Machine.fresh.run {} 20 items).1 = some .ok
        ∧ (Machine.fresh.run {} 20 items).2.world.store.hasFunction 0 "x" = true)) = true := by
    decide +kernel
  obtain ⟨items, hparsed, hcheck⟩ := (Option.any_eq_true _ _).1 hcheck
  exact ⟨items, Outcome.toOption_eq_some.1 hparsed, of_decide_eq_true hcheck⟩

end Eleu

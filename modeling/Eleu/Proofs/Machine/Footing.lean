import Eleu.Proofs.Library.Host
import Eleu.Proofs.Scope.Setting

/-! # What a running machine rests on

    The rows of a machine (`Machine.Runs`) are judged by the shapes of its code and by what is known
    of its environments. How much is known of these depends on what the natives of the host may do.
    A `Footing` is such a state of knowledge: what an environment is for the scopes at a place in the
    code, what is asked of the functions in the store, and which changes of the store keep all that.

    There are two. On the footing of a setting (`Setting.footing`), every environment is an instance
    of its scope; this needs a tame host. On the loose footing (`Footing.loose`), all that is known is
    that as many scopes can be left as the code will leave, and that functions come from
    declarations that could stand in a program; this needs a safe host only. -/

namespace Eleu

/-! ## Frames that have their environments to themselves -/

/-- The environments of frames at these places, from the innermost of the topmost frame on, are older
    and older, and have only the names of their scopes, except for outermost ones. If `W` holds, no
    environment but `g` is without a scope. -/
inductive Owned (s : Store) (g : EnvRef) (W : Prop) : (next : Nat) → List (EnvRef × Context) → Prop where
  | nil : Owned s g W next []
  | root (older : e < next) (names : ∀ p, (s.env e).parent = some p → s.Within e Γ)
    (top : Γ.blocks = 0) (globals : W → Γ = [] → e = g) (rest : Owned s g W e ps) :
    Owned s g W next ((e, Γ) :: ps)
  | block (older : e < next) (names : s.Within e (scope :: outer))
    (parent : (s.env e).parent = some p) (rest : Owned s g W e ((p, outer) :: ps)) :
    Owned s g W next ((e, scope :: outer) :: ps)

namespace Owned

variable {s t : Store} {g e : EnvRef} {W : Prop} {next : Nat} {Γ : Context}
  {ps : List (EnvRef × Context)}

theorem mono (h : Owned s g W next ps) {next' : Nat} (hle : next ≤ next') : Owned s g W next' ps := by
  cases h with
  | nil => exact .nil
  | root ho hn ht hw hr => exact .root (Nat.lt_of_lt_of_le ho hle) hn ht hw hr
  | block ho hn hp hr => exact .block (Nat.lt_of_lt_of_le ho hle) hn hp hr

/-- What is owned stays so if the environments that are owned get no names. -/
theorem grows (h : Owned s g W next ps) (hg : s.Grows Reserved t) (hnext : next ≤ s.envs.size)
    (hn : ∀ {a p name}, a < next → (s.env a).parent = some p → t.hasLocal a name = true →
      s.hasLocal a name = true) :
    Owned t g W next ps := by
  induction h with
  | nil => exact .nil
  | root ho hx ht hw _ ih =>
    refine .root ho (fun p hp scope hs x h => ?_) ht hw
      (ih (Nat.le_trans (Nat.le_of_lt ho) hnext) fun ha => hn (Nat.lt_trans ha ho))
    have hp := (hg.parent _ (Nat.lt_of_lt_of_le ho hnext)).symm.trans hp
    exact hx p hp scope hs x (hn ho hp h)
  | block ho hx hp _ ih =>
    exact .block ho (fun scope hs x h => hx scope hs x (hn ho hp h))
      ((hg.parent _ (Nat.lt_of_lt_of_le ho hnext)).trans hp)
      (ih (Nat.le_trans (Nat.le_of_lt ho) hnext) fun ha => hn (Nat.lt_trans ha ho))

theorem under (h : Owned s g W s.envs.size ps) (hk : s.Keeps Reserved t) : Owned t g W s.envs.size ps :=
  h.grows hk.toGrows (Nat.le_refl _) fun _ => hk.names

theorem keeps (h : Owned s g W s.envs.size ps) (hk : s.Keeps Reserved t) : Owned t g W t.envs.size ps :=
  (h.under hk).mono hk.size

/-- The topmost frame is gone. -/
theorem tail (h : Owned s g W next ((e, Γ) :: ps)) : Owned s g W next ps := by
  induction Γ generalizing next e with
  | nil =>
    cases h with
    | root ho _ _ _ hr => exact hr.mono (Nat.le_of_lt ho)
  | cons scope outer ih =>
    cases h with
    | root ho _ _ _ hr => exact hr.mono (Nat.le_of_lt ho)
    | block ho _ _ hr => exact (ih hr).mono (Nat.le_of_lt ho)

/-- Outside the global environment there is a scope, with all the names of an environment that is
    inside another. -/
theorem within (h : Owned s g W next ((e, Γ) :: ps)) (w : W) (hne : e ≠ g) :
    Γ ≠ [] ∧ ∀ p, (s.env e).parent = some p → s.Within e Γ := by
  cases h with
  | root _ hn _ hw => exact ⟨fun hΓ => hne (hw w hΓ), hn⟩
  | block _ hn => exact ⟨List.cons_ne_nil _ _, fun _ _ => hn⟩

/-- Blocks are left. -/
theorem leave {n : Nat} {a : EnvRef} (h : Owned s g W next ((e, Γ) :: ps)) (hn : n ≤ Γ.blocks)
    (ha : s.ancestor? e n = some a) : Owned s g W next ((a, Γ.drop n) :: ps) := by
  induction n generalizing next e Γ with
  | zero => exact Option.some.inj ha ▸ h
  | succ n ih =>
    cases h with
    | root _ _ ht => omega
    | block ho _ hp hr =>
      rw [Store.ancestor?_succ, hp] at ha
      refine (ih hr ?_ ha).mono (Nat.le_of_lt ho)
      unfold Context.blocks at hn
      split at hn <;> omega

/-- A block is entered. -/
theorem enter (h : Owned s g W s.envs.size ((e, Γ) :: ps)) (span : Span) :
    Owned (s.newEnv (some e)).2 g W (s.newEnv (some e)).2.envs.size
      ((s.envs.size, { site := .block span } :: Γ) :: ps) := by
  refine .block (p := e) (by simp) (fun _ _ x hx => ?_) (by rw [Store.env_newEnv, if_pos rfl])
    (h.under (.newEnv _ _))
  exact absurd (Store.lt_size_of_hasLocal (Store.hasLocal_newEnv hx)) (Nat.lt_irrefl _)

/-- A name is declared in the innermost environment. -/
theorem declare {name : String} (h : Owned s g W s.envs.size ((e, Γ) :: ps)) (hg : s.Grows Reserved t)
    (hn : ∀ {a x}, a < s.envs.size → t.hasLocal a x = true → s.hasLocal a x = true ∨ a = e ∧ x = name) :
    Owned t g W t.envs.size ((e, Γ.declare name) :: ps) := by
  -- the environments further out are older
  have hrest {ps : List (EnvRef × Context)} (ho : e < s.envs.size) (hr : Owned s g W e ps) :
      Owned t g W e ps :=
    hr.grows hg (Nat.le_of_lt ho) fun ha _ h =>
      (hn (Nat.lt_trans ha ho) h).resolve_right fun hc => Nat.ne_of_lt ha hc.1
  refine mono ?_ hg.size
  cases h with
  | root ho hx ht hw hr =>
    refine .root ho (fun p hp => ?_) (by rwa [Context.blocks_declare]) (fun w hΓ => hw w ?_) (hrest ho hr)
    · exact (hx p ((hg.parent _ ho).symm.trans hp)).declare fun h => (hn ho h).imp_right And.right
    · cases Γ with
      | nil => rfl
      | cons scope outer => exact nomatch hΓ
  | block ho hx hp hr =>
    exact .block ho (hx.declare fun h => (hn ho h).imp_right And.right) ((hg.parent _ ho).trans hp)
      (hrest ho hr)

end Owned

namespace Setting

/-- The body of every function is judged inside the scope of the function. -/
def Whole (S : Setting) : Prop := ∀ decl Γ, S.start decl Γ ≠ []

variable {S : Setting} {s : Store} {c : Closure} {args : List Value} {Γ : Context}

/-- A function that is called gets a new environment to itself. -/
theorem owned_call {g : EnvRef} {ps : List (EnvRef × Context)} (c : Closure) (args : List Value)
    (Γ : Context) (h : Owned s g S.Whole s.envs.size ps) :
    Owned (s.callStore c args) g S.Whole (s.callStore c args).envs.size
      ((s.envs.size, S.start c.decl Γ) :: ps) := by
  have hstart := S.start_eq c.decl Γ
  refine .root (s.callStore_present c args) (fun _ _ scope hs x hx => ?_) ?_
    (fun hw hnil => absurd hnil (hw _ _)) (h.under (.callStore s c args))
  · rcases hstart with he | he <;> rw [he] at hs
    · cases hs
    · cases hs
      exact ((Store.hasLocal_callStore hx).resolve_left fun hx =>
        Nat.lt_irrefl _ (Store.lt_size_of_hasLocal hx)).2
  · rcases hstart with he | he <;> rw [he] <;> rfl

theorem chain_call (h : Chain S.history s c.env Γ)
    (hm : S.history.made s.envs.size (.function c.decl.id)) (hlen : c.decl.params.length = args.length) :
    Chain S.history (s.callStore c args) s.envs.size (S.start c.decl Γ) := by
  rcases S.start_eq c.decl Γ with he | he
  · rw [he]
    trivial
  · rw [he]
    exact h.call hm hlen

end Setting

/-! ## Footings -/

/-- What is known of the environments and the functions of a running machine, and what keeps it. -/
structure Footing extends Setting where
  /-- What is asked of the functions in the store. -/
  law : StoreLaw Reserved
  /-- The store may become the other one between two instructions. -/
  grows : Store → Store → Prop
  /-- So it may when no frame gets a variable. -/
  keeps : Store → Store → Prop
  /-- The environment is one for the scopes of the context. -/
  chain : Store → EnvRef → Context → Prop
  /-- Frames at these places have their environments to themselves, apart from the globals. -/
  owned : Store → EnvRef → List (EnvRef × Context) → Prop
  /-- The environment can be that of the globals. -/
  root : Store → EnvRef → Prop
  grows_of : ∀ {s t}, s.Grows Reserved t → grows s t
  keeps_of : ∀ {s t}, s.Keeps Reserved t → keeps s t
  keeps_grows : ∀ {s t}, keeps s t → grows s t
  keeps_native : ∀ {s g} name params op, root s g → keeps s (s.defineNative g name params op)
  obeys_native : ∀ {s g} name params op, s.Obeys law → root s g →
    (s.defineNative g name params op).Obeys law
  value_grows : ∀ {s t v}, grows s t → law.value s v → law.value t v
  closure : ∀ {s c}, law.value s (.callable (.closure c)) →
    ∃ Γ, toSetting.rules.known c.decl Γ ∧ chain s c.env Γ
  obeys_function : ∀ {s e Γ} {decl : FunctionDecl}, s.Obeys law → chain s e Γ →
    ¬ Reserved decl.name → decl.kind = .function →
    toSetting.rules.known decl (Γ.declare decl.name) →
    (s.define e decl.name (Setting.functionValue decl e)).Obeys law
  obeys_class : ∀ {s t e Γ name superclass methods span}, s.Obeys law → chain s e Γ → Γ.Plain →
    ¬ Reserved name → (∀ v ∈ superclass, v.Obeys law s) →
    (∀ d ∈ methods, d.kind = .method
      ∧ toSetting.rules.known d (Context.ofMethods superclass.isSome span (Γ.declare name))) →
    Store.declareClass e name superclass methods s = .ok () t →
    (superclass.isSome → toSetting.history.made s.envs.size (.super span)) →
    (∀ r c, s.Adds e name superclass methods r c → toSetting.history.added e r c) → t.Obeys law
  chain_nil : ∀ s e, chain s e []
  chain_grows : ∀ {s t e Γ}, grows s t → chain s e Γ → chain t e Γ
  chain_declare : ∀ {s e Γ name} v, chain s e Γ → ¬ Reserved name →
    chain (s.define e name v) e (Γ.declare name)
  chain_class : ∀ {s t e Γ name superclass methods}, chain s e Γ → ¬ Reserved name →
    Store.declareClass e name superclass methods s = .ok () t → chain t e (Γ.declare name)
  chain_enter : ∀ {s e Γ span}, chain s e Γ → toSetting.history.made s.envs.size (.block span) →
    chain (s.newEnv (some e)).2 s.envs.size ({ site := .block span } :: Γ)
  chain_leave : ∀ {s e Γ n}, chain s e Γ → n ≤ Γ.length →
    ∃ a, s.ancestor? e n = some a ∧ chain s a (Γ.drop n)
  chain_call : ∀ {s Γ} {c : Closure} {args : List Value}, chain s c.env Γ →
    toSetting.history.made s.envs.size (.function c.decl.id) →
    c.decl.params.length = args.length →
    chain (s.callStore c args) s.envs.size (toSetting.start c.decl Γ)
  owned_keeps : ∀ {s t g ps}, keeps s t → owned s g ps → owned t g ps
  owned_declare : ∀ {s t g e Γ ps name}, owned s g ((e, Γ) :: ps) → s.Grows Reserved t →
    (∀ {a x}, a < s.envs.size → t.hasLocal a x = true → s.hasLocal a x = true ∨ a = e ∧ x = name) →
    owned t g ((e, Γ.declare name) :: ps)
  owned_enter : ∀ {s g e Γ ps} span, owned s g ((e, Γ) :: ps) →
    owned (s.newEnv (some e)).2 g ((s.envs.size, { site := .block span } :: Γ) :: ps)
  owned_leave : ∀ {s g e a Γ ps n}, owned s g ((e, Γ) :: ps) → n ≤ Γ.blocks →
    s.ancestor? e n = some a → owned s g ((a, Γ.drop n) :: ps)
  owned_call : ∀ {s g ps} c args Γ, owned s g ps →
    owned (s.callStore c args) g ((s.envs.size, toSetting.start c.decl Γ) :: ps)
  owned_tail : ∀ {s g e Γ ps}, owned s g ((e, Γ) :: ps) → owned s g ps
  owned_start : ∀ {s g}, root s g → owned s g [(g, [])]
  root_grows : ∀ {s t g}, grows s t → root s g → root t g
  root_of : ∀ {s g}, s.Root g → root s g

/-- No native does to the store what the footing does not bear. -/
def Footing.Bears (S : Footing) (o : Options) : Prop :=
  ∀ (f : Native) {args : List Value} {w : World}, w.store.Obeys S.law →
    (∀ v ∈ args, v.Obeys S.law w.store) →
    NativeM.Keeps S.law S.keeps (·.cause.Sound) w (NativeM.call o f args w)

/-! ### The footing of a setting -/

/-- Every environment is an instance of its scope. -/
abbrev Setting.footing (S : Setting) : Footing where
  toSetting := S
  law := S.law
  grows := Store.Grows Reserved
  keeps := Store.Keeps Reserved
  chain := Chain S.history
  owned s g := Owned s g S.Whole s.envs.size
  root := Store.Root
  grows_of := id
  keeps_of := id
  keeps_grows h := h.toGrows
  keeps_native name params op h := .defineNative h name params op
  obeys_native name params op hs h := hs.defineNative h name params op
  value_grows := S.law.value_grows
  closure := And.right
  obeys_function := obeys_function
  obeys_class := obeys_class
  chain_nil _ _ := trivial
  chain_grows := Chain.grows
  chain_declare v h hn := h.declare hn v
  chain_class h hn hd := h.declareClass hn hd
  chain_enter h hm := h.enter hm
  chain_leave h hn := h.ancestor hn
  chain_call := chain_call
  owned_keeps hk h := h.keeps hk
  owned_declare h := h.declare
  owned_enter span h := h.enter span
  owned_leave h := h.leave
  owned_call := owned_call
  owned_tail h := h.tail
  owned_start h := .root h.1 (fun _ _ _ hs => nomatch hs) rfl (fun _ _ => rfl) .nil
  root_grows hg h := h.grows hg
  root_of := id

theorem Setting.bears {S : Setting} {o : Options} (ho : o.TameHost) : S.footing.Bears o :=
  fun f _ _ hs hargs => (NativeM.call_tame ho S.law_onFunctions f hs hargs).mono
    (fun _ _ h => ⟨h.1, h.2.1, h.2.2.toKeeps⟩) fun _ _ h => ⟨h.1, h.2.1, h.2.2.toKeeps⟩

/-! ### The loose footing -/

/-- As many scopes as could be left from an environment still can be. -/
def Store.Reaches (s t : Store) : Prop :=
  ∀ e n, (s.ancestor? e n).isSome → (t.ancestor? e n).isSome

/-- The functions in a store come from declarations that could stand in some program. -/
def StoreLaw.sensible : StoreLaw Reserved := .declared _ fun d => Rules.lax.known d []

/-- What the natives of the host must not do if the machine is to be free of faults of its own: cut a
    chain of scopes short, bring in functions that could stand in no program, and end with such a
    fault themselves. -/
structure Options.SafeHost (o : Options) : Prop where
  scopes : ∀ name args (w : World), w.store.Reaches (Outcome.state (o.host name args w)).store
  functions : ∀ name args (w : World), (∀ v ∈ args, v.Obeys .sensible w.store) →
    w.store.Obeys .sensible → Ends (o.host name args w)
      (fun v t => v.Obeys .sensible t.store ∧ t.store.Obeys .sensible)
      (fun _ t => t.store.Obeys .sensible)
  errors : ∀ name args w, Ends (o.host name args w) (fun _ _ => True) (fun f _ => f.cause.Sound)

theorem Store.Grows.reaches {K : String → Prop} {s t : Store} (h : s.Grows K t) : s.Reaches t := by
  intro e n he
  obtain ⟨a, ha⟩ := Option.isSome_iff_exists.1 he
  rw [Store.ancestor?_grows h ha]
  rfl

/-- A native is defined in an environment that is there or not. -/
theorem Store.reaches_defineNative (s : Store) (g : EnvRef) (name : String) (params : List String)
    (op : NativeOp) : s.Reaches (s.defineNative g name params op) :=
  have hnew : s.Grows (fun _ => False) (s.newNative name params op).2 := .of_eq rfl rfl
  (hnew.trans (.define (s.newNative name params op).2 g (.inl id) _)).reaches

theorem Store.Obeys.sensible_defineNative {s : Store} (h : s.Obeys .sensible) (g : EnvRef)
    (name : String) (params : List String) (op : NativeOp) :
    (s.defineNative g name params op).Obeys .sensible := by
  refine ⟨fun {a x v} hx => ?_, h.elements, h.fields, h.methods⟩
  have hx : ((s.newNative name params op).2.define g name
    (.callable (.native (s.newNative name params op).1))).local? a x = some v := hx
  rw [Store.local?_define] at hx
  split at hx
  · cases hx
    trivial
  · exact h.locals hx

/-- All that is known of an environment is how many scopes can be left. -/
def Footing.loose : Footing where
  toSetting := .lax
  law := .sensible
  grows := Store.Reaches
  keeps := Store.Reaches
  chain s e Γ := (s.ancestor? e Γ.length).isSome
  owned _ _ _ := True
  root _ _ := True
  grows_of := Store.Grows.reaches
  keeps_of h := h.reaches
  keeps_grows := id
  keeps_native name params op _ := Store.reaches_defineNative _ _ name params op
  obeys_native name params op hs _ := hs.sensible_defineNative _ name params op
  value_grows _ h := h
  closure h := ⟨[], h, rfl⟩
  obeys_function h _ hn _ hk := h.define (.define _ _ (.inl hn) _) hk
  obeys_class h _ _ hn hv hms hd _ _ := h.declareClass hn hv hd fun _ _ _ _ _ _ d hd => (hms d hd).2
  chain_nil _ _ := rfl
  chain_grows hg h := hg _ _ h
  chain_declare v h hn := by
    rw [Context.length_declare]
    exact (Store.Grows.define (K := Reserved) _ _ (.inl hn) v).reaches _ _ h
  chain_class h hn hd := by
    rw [Context.length_declare]
    exact (Store.Grows.declareClass (K := Reserved) hn hd).reaches _ _ h
  chain_enter h _ := by
    obtain ⟨a, ha⟩ := Option.isSome_iff_exists.1 h
    rw [List.length_cons, Store.ancestor?_newEnv _ _ _ ha]
    rfl
  chain_leave {s e Γ n} h hn := by
    -- the way outwards is taken in two parts
    rw [show Γ.length = n + (Γ.length - n) by omega, Store.ancestor?_add] at h
    cases ha : s.ancestor? e n with
    | none =>
      rw [ha] at h
      exact nomatch h
    | some a =>
      rw [ha] at h
      exact ⟨a, rfl, by rw [List.length_drop]; exact h⟩
  chain_call _ _ _ := rfl
  owned_keeps _ _ := trivial
  owned_declare _ _ _ := trivial
  owned_enter _ _ := trivial
  owned_leave _ _ _ := trivial
  owned_call _ _ _ _ := trivial
  owned_tail _ := trivial
  owned_start _ := trivial
  root_grows _ _ := trivial
  root_of _ := trivial

theorem Footing.loose_bears {o : Options} (ho : o.SafeHost) : Footing.loose.Bears o := by
  intro f args w hs hargs
  refine NativeM.call_keeps (fun h => (h.grows (K := Reserved)).reaches) (fun _ h => h.sound) f hs hargs
    fun name => ?_
  have h₁ := ho.scopes name args w
  have h₂ := ho.functions name args w hargs hs
  have h₃ := ho.errors name args w
  cases h : o.host name args w with
  | ok v t =>
    rw [h] at h₁ h₂
    exact ⟨h₂.1, h₂.2, h₁⟩
  | error c t =>
    rw [h] at h₁ h₂ h₃
    exact ⟨h₃, h₂, h₁⟩

end Eleu

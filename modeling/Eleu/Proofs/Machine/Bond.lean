import Eleu.Machine.Step
import Eleu.Proofs.Library.Host
import Mathlib.Data.List.Forall2

/-! # Machines side by side

    Much of what is said about the machine says that two of them keep in step: two that execute the
    same program with other ids, or two of which one has forgotten the chunks it had noted. Where
    something is said about a single run, the machine keeps in step with itself. A `Bond` says what
    relates the two machines. `Bond.Lawful` asks what is needed of a bond, one clause for each operation
    on stores, for the natives and for the chunks of functions. Machines that a lawful bond
    relates stay related through every instruction (`Bond.Lawful.execute`), every step
    (`Bond.Lawful.step`) and a whole run (`Bond.Lawful.interpret`). -/

namespace Eleu

/-- What relates two machines. Values and environments are seen from the store of the first machine, which
    may become what `later` says. -/
structure Bond where
  store : Store → Store → Prop
  later : Store → Store → Prop
  value : Store → Value → Value → Prop
  /-- The environments that may be referred to. -/
  env : Store → EnvRef → Prop
  decl : FunctionDecl → FunctionDecl → Prop
  chunk : Chunk → Chunk → Prop
  /-- The distances and the chunks noted so far. -/
  code : Distances → Table Nat Chunk → Distances → Table Nat Chunk → Prop
  /-- The places that instructions may have. -/
  place : Option Span → Prop
  /-- The faults that instructions may end with. -/
  fault : Fault → Prop
  /-- What the flag for a fault may be. -/
  flag : Bool → Prop
  later_refl : ∀ s, later s s
  later_trans : ∀ {s t u : Store}, later s t → later t u → later s u
  value_later : ∀ {s t : Store} {v v' : Value}, later s t → value s v v' → value t v v'
  env_later : ∀ {s t : Store} {e : EnvRef}, later s t → env s e → env t e

/-- The same elements on both sides. -/
theorem forall₂_diagonal {α : Type} {P : α → Prop} {xs ys : List α} :
    List.Forall₂ (fun x y => y = x ∧ P x) xs ys ↔ ys = xs ∧ ∀ x ∈ xs, P x := by
  constructor
  · intro h
    induction h with
    | nil => exact ⟨rfl, by rintro _ ⟨⟩⟩
    | cons hx _ ih => exact ⟨by rw [hx.1, ih.1], List.forall_mem_cons.2 ⟨hx.2, ih.2⟩⟩
  · rintro ⟨rfl, h⟩
    exact List.forall₂_same.2 fun x hx => ⟨rfl, h x hx⟩

/-- Instructions in which there is neither a value nor a declaration. -/
def Op.Bare : Op → Prop
  | .constant _ | .function _ | .class _ _ => False
  | _ => True

/-- The same value, or two functions. -/
inductive Value.Shape : Value → Value → Prop where
  | plain {v : Value} (h : v.Plain) : Shape v v
  | closure (c c' : Closure) : Shape (.callable (.closure c)) (.callable (.closure c'))

theorem Value.Shape.refl (v : Value) : v.Shape v := by
  cases v with
  | callable c =>
    cases c with
    | closure c => exact .closure c c
    | _ => exact .plain trivial
  | _ => exact .plain trivial

namespace Bond

variable (B : Bond)

/-- Related functions. -/
abbrev Closures (s : Store) (c c' : Closure) : Prop :=
  B.value s (.callable (.closure c)) (.callable (.closure c'))

/-- Related members of instances. -/
inductive Members (s : Store) : Member → Member → Prop where
  | value {v v' : Value} (h : B.value s v v') : Members s (.value v) (.value v')
  | method {c c' : Closure} (h : B.Closures s c c') (this : InstanceRef) :
    Members s (.method c this) (.method c' this)

/-- Instructions that are the same but for related values and declarations in them. -/
inductive Ops : Op → Op → Prop where
  | constant {v v' : Value} (h : ∀ s, B.value s v v') : Ops (.constant v) (.constant v')
  | function {decl decl' : FunctionDecl} (h : B.decl decl decl') : Ops (.function decl) (.function decl')
  | class (name : String) {ms ms' : List FunctionDecl} (h : List.Forall₂ B.decl ms ms') :
    Ops (.class name ms) (.class name ms')
  | same {op : Op} (h : op.Bare) : Ops op op

/-- Related instructions from the same place. -/
structure Instrs (i i' : Instr) : Prop where
  op : B.Ops i.op i'.op
  span : i'.span = i.span
  place : B.place i.span

/-- The same frame with related chunks. -/
inductive Frames : Frame → Frame → Prop where
  | mk {c c' : Chunk} (h : B.chunk c c') (ip : Nat) (name : String) (span : Option Span) (base : Nat) :
    Frames ⟨c, ip, name, span, base⟩ ⟨c', ip, name, span, base⟩

variable {B} in
theorem Frames.refl {f : Frame} (h : B.chunk f.chunk f.chunk) : B.Frames f f := .mk h ..

/-- Related machines. -/
structure Machines (m m' : Machine) : Prop where
  world : m.world.Alike B.store m'.world
  globals : m'.globals = m.globals ∧ B.env m.world.store m.globals
  env : m'.env = m.env ∧ B.env m.world.store m.env
  envs : m'.envs = m.envs ∧ ∀ e ∈ m.envs, B.env m.world.store e
  stack : List.Forall₂ (B.value m.world.store) m.stack m'.stack
  frames : List.Forall₂ B.Frames m.frames m'.frames
  handlers : m'.handlers = m.handlers ∧ ∀ h ∈ m.handlers, B.place h.span ∧ B.env m.world.store h.env
  code : B.code m.distances m.chunks m'.distances m'.chunks
  count : m'.count = m.count
  failed : m'.failed = m.failed ∧ B.flag m.failed

/-- Outcomes of writes of related stores. -/
abbrev Writes (s : Store) (r r' : EStateM.Result Cause Store Unit) : Prop :=
  BothEnd (fun t t' => B.later s t ∧ B.store t t') (fun _ _ _ => True) (fun _ => True) r r'

/-- Outcomes of natives in related worlds. -/
abbrev Natives (s : Store) (r r' : EStateM.Result Fault World Value) : Prop :=
  BothEnd (fun w w' => B.later s w.store ∧ w.Alike B.store w') (fun w => B.value w.store) B.fault r r'

/-- Outcomes of computations of related machines, the first of which had the store `s`. -/
abbrev Ends {α β : Type} (s : Store) (A : Store → α → β → Prop) (r : EStateM.Result Fault Machine α)
    (r' : EStateM.Result Fault Machine β) : Prop :=
  BothEnd (fun m m' => B.later s m.world.store ∧ B.Machines m m') (fun m => A m.world.store) B.fault r r'

/-- What both machines read in related stores is the same. -/
structure Reads : Prop where
  repr : ∀ {s s' v v'}, B.store s s' → B.value s v v' → s'.repr v' = s.repr v
  truth : ∀ {s s' v v'}, B.store s s' → B.value s v v' → s'.truth v' = s.truth v
  rounds : ∀ {s s' v v'}, B.store s s' → B.value s v v' → s'.rounds v' = s.rounds v
  unary : ∀ {s s' v v'} op, B.store s s' → B.value s v v' → s'.unary op v' = s.unary op v
  binary : ∀ {s s' l l' r r'} op, B.store s s' → B.value s l l' → B.value s r r' →
    s'.binary op l' r' = s.binary op l r
  logical : ∀ {s s' l l' r r'} op, B.store s s' → B.value s l l' → B.value s r r' →
    s'.logical op l' r' = s.logical op l r
  checkArity : ∀ {s s' c c'} n, B.store s s' → B.value s (.callable c) (.callable c') →
    s'.checkArity c' n = s.checkArity c n
  hasLocal : ∀ {s s'} e name, B.store s s' → s'.hasLocal e name = s.hasLocal e name
  holder : ∀ {s s'} e name, B.store s s' → s'.holder e name = s.holder e name
  holderAt : ∀ {s s'} e name n, B.store s s' → s'.holderAt e name n = s.holderAt e name n
  parent : ∀ {s s'} e, B.store s s' → (s'.env e).parent = (s.env e).parent
  envs : ∀ {s s'}, B.store s s' → s'.envs.size = s.envs.size
  instances : ∀ {s s'}, B.store s s' → s'.instances.size = s.instances.size
  size : ∀ {c c'}, B.chunk c c' → c'.ops.size = c.ops.size
  decode : ∀ {c c'} n, B.chunk c c' → c'.decode n = c.decode n

/-- It is if both have the same stores, values and chunks. -/
theorem Reads.of_eq {B : Bond} (hs : ∀ {s s'}, B.store s s' → s' = s)
    (hv : ∀ {s v v'}, B.value s v v' → v' = v) (hc : ∀ {c c'}, B.chunk c c' → c' = c) : B.Reads where
  repr h k := by rw [hs h, hv k]
  truth h k := by rw [hs h, hv k]
  rounds h k := by rw [hs h, hv k]
  unary _ h k := by rw [hs h, hv k]
  binary _ h k l := by rw [hs h, hv k, hv l]
  logical _ h k l := by rw [hs h, hv k, hv l]
  checkArity _ h k := by
    cases hv k
    rw [hs h]
  hasLocal _ _ h := by rw [hs h]
  holder _ _ h := by rw [hs h]
  holderAt _ _ _ h := by rw [hs h]
  parent _ h := by rw [hs h]
  envs h := by rw [hs h]
  instances h := by rw [hs h]
  size h := by rw [hc h]
  decode _ h := by rw [hc h]

/-- What the operations on stores, the natives and the chunks have to respect. -/
structure Lawful (o : Options) : Prop extends B.Reads where
  shape : ∀ {s v v'}, B.value s v v' → v.Shape v'
  inert : ∀ {s v}, v.Inert → B.value s v v
  decl : ∀ {d d'}, B.decl d d' → d'.name = d.name ∧ d'.params = d.params
  function : ∀ {s d d' e}, B.decl d d' → B.env s e → B.Closures s ⟨d, e, false⟩ ⟨d', e, false⟩
  closure : ∀ {s c c'}, B.Closures s c c' → B.decl c.decl c'.decl ∧ c'.env = c.env ∧ B.env s c.env
  moved : ∀ {s c c' e}, B.Closures s c c' → B.env s e → B.Closures s { c with env := e } { c' with env := e }
  define : ∀ {s s' v v'} e name, B.store s s' → B.value s v v' →
    B.later s (s.define e name v) ∧ B.store (s.define e name v) (s'.define e name v')
  newEnv : ∀ {s s' p}, B.store s s' → B.env s p → B.later s (s.newEnv (some p)).2
    ∧ B.store (s.newEnv (some p)).2 (s'.newEnv (some p)).2 ∧ B.env (s.newEnv (some p)).2 s.envs.size
  outer : ∀ {s s' e p}, B.store s s' → B.env s e → (s.env e).parent = some p → B.env s p
  newInstance : ∀ {s s'} r, B.store s s' →
    B.later s (s.newInstance r).2 ∧ B.store (s.newInstance r).2 (s'.newInstance r).2
  setField : ∀ {s s' v v'} r name, B.store s s' → B.value s v v' →
    B.later s (s.setField r name v) ∧ B.store (s.setField r name v) (s'.setField r name v')
  declareClass : ∀ {s s' e x x' ms ms'} name, B.store s s' → B.env s e → Option.Rel (B.value s) x x' →
    List.Forall₂ B.decl ms ms' →
    B.Writes s (Store.declareClass e name x ms s) (Store.declareClass e name x' ms' s')
  getAt : ∀ {s s'} e name n, B.store s s' →
    YieldAlike (B.value s) (s.getAt e name n) (s'.getAt e name n)
  getFrom : ∀ {s s'} e name, B.store s s' → YieldAlike (B.value s) (s.get e name) (s'.get e name)
  findMethod : ∀ {s s'} r name, B.store s s' →
    Option.Rel (B.Closures s) (s.findMethod? r name) (s'.findMethod? r name)
  findMember : ∀ {s s'} r name, B.store s s' →
    YieldAlike (B.Members s) (s.findMember r name) (s'.findMember r name)
  findSuper : ∀ {s s'} e n name, B.store s s' →
    YieldAlike (B.Members s) (s.findSuper e n name) (s'.findSuper e n name)
  native : ∀ {w w' args args'} f, w.Alike B.store w' → List.Forall₂ (B.value w.store) args args' →
    B.Natives w.store (NativeM.call o f args w) (NativeM.call o f args' w')
  instr : ∀ {c c'} n, B.chunk c c' → Option.Rel B.Instrs (c.instr? n) (c'.instr? n)
  chunkFor : ∀ {m m' d d'}, B.decl d d' → B.Machines m m' →
    B.Ends m.world.store (fun _ => B.chunk) (Exec.chunkFor d m) (Exec.chunkFor d' m')
  unplaced : ∀ c, B.fault { cause := c }
  placed : ∀ {p}, B.place p → B.fault { cause := .errorExpected, span := p }
  located : ∀ {f p}, B.fault f → B.place p → B.place (f.locate p).span

variable {B} {o : Options} {s t : Store} {m m' : Machine}

namespace Machines

/-- The worlds change, and the store of the first machine to a later one. -/
theorem withWorld (h : B.Machines m m') {w w' : World} (hl : B.later m.world.store w.store)
    (hw : w.Alike B.store w') : B.Machines { m with world := w } { m' with world := w' } where
  world := hw
  globals := ⟨h.globals.1, B.env_later hl h.globals.2⟩
  env := ⟨h.env.1, B.env_later hl h.env.2⟩
  envs := ⟨h.envs.1, fun e he => B.env_later hl (h.envs.2 e he)⟩
  stack := h.stack.imp fun _ _ hv => B.value_later hl hv
  frames := h.frames
  handlers := ⟨h.handlers.1, fun k hk => ⟨(h.handlers.2 k hk).1, B.env_later hl (h.handlers.2 k hk).2⟩⟩
  code := h.code
  count := h.count
  failed := h.failed

theorem withStore (h : B.Machines m m') {t t' : Store} (hl : B.later m.world.store t)
    (ht : B.store t t') : B.Machines { m with world := { m.world with store := t } }
      { m' with world := { m'.world with store := t' } } :=
  h.withWorld hl (h.world.withStore ht)

/-- What is written does not matter. -/
theorem inJournal (h : B.Machines m m') {w w' : World} (hs : w.store = m.world.store)
    (hw : w.Alike B.store w') : B.Machines { m with world := w } { m' with world := w' } :=
  h.withWorld (hs ▸ B.later_refl _) hw

/-- Machines that have executed nothing. -/
theorem idle {w w' : World} {e : EnvRef} {d d' : Distances} (hw : w.Alike B.store w')
    (he : B.env w.store e) (hcode : B.code d {} d' {}) (hflag : B.flag false) :
    B.Machines { world := w, globals := e, env := e, distances := d }
      { world := w', globals := e, env := e, distances := d' } where
  world := hw
  globals := ⟨rfl, he⟩
  env := ⟨rfl, he⟩
  envs := ⟨rfl, by rintro _ ⟨⟩⟩
  stack := .nil
  frames := .nil
  handlers := ⟨rfl, by rintro _ ⟨⟩⟩
  code := hcode
  count := rfl
  failed := ⟨rfl, hflag⟩

/-- Machines that are made ready for their programs. -/
theorem begun (h : B.Machines m m') (hflag : B.flag false) {c c' : Chunk} (hc : B.chunk c c') :
    B.Machines
      { m with failed := false, stack := [], handlers := [], envs := [], env := m.globals,
               frames := [{ chunk := c, ip := 0, name := "script", span := none, base := 0 }] }
      { m' with failed := false, stack := [], handlers := [], envs := [], env := m'.globals,
                frames := [{ chunk := c', ip := 0, name := "script", span := none, base := 0 }] } :=
  { h with
    env := h.globals
    envs := ⟨rfl, by rintro _ ⟨⟩⟩
    stack := .nil
    frames := .cons (.mk hc ..) .nil
    handlers := ⟨rfl, by rintro _ ⟨⟩⟩
    failed := ⟨rfl, hflag⟩ }

theorem jump (h : B.Machines m m') (target : Nat) : B.Machines (m.jump target) (m'.jump target) := by
  have hf := h.frames
  unfold Machine.jump
  generalize m.frames = fs at hf ⊢
  generalize m'.frames = fs' at hf ⊢
  cases hf with
  | nil => exact h
  | cons hf hfs =>
    cases hf with
    | mk hc => exact { h with frames := .cons (.mk hc ..) hfs }

end Machines

/-! ## Computations -/

/-- Started from related machines, both computations end alike. -/
def Along {α β : Type} (B : Bond) (s : Store) (A : Store → α → β → Prop) (x : Exec α) (y : Exec β) : Prop :=
  ∀ m m', B.later s m.world.store → B.Machines m m' → B.Ends s A (x m) (y m')

/-- Nothing is said about the results. -/
abbrev Done {α β : Type} : Store → α → β → Prop := fun _ _ _ => True

section

variable {α β α' β' : Type} {A : Store → α → β → Prop} {C : Store → α' → β' → Prop}

theorem Ends.after {r : EStateM.Result Fault Machine α} {r' : EStateM.Result Fault Machine β}
    (hl : B.later s t) (h : B.Ends t A r r') : B.Ends s A r r' := by
  cases h with
  | ok hm ha => exact .ok ⟨B.later_trans hl hm.1, hm.2⟩ ha
  | error hm hf => exact .error ⟨B.later_trans hl hm.1, hm.2⟩ hf

namespace Along

/-- Two actions one after the other. -/
theorem bind {x : Exec α} {y : Exec β} {f : α → Exec α'} {g : β → Exec β'} (h : B.Along s A x y)
    (hf : ∀ t a b, B.later s t → A t a b → B.Along t C (f a) (g b)) : B.Along s C (x >>= f) (y >>= g) := by
  intro m m' hl hm
  have hxy := h m m' hl hm
  rw [Outcome.bind_apply, Outcome.bind_apply]
  generalize x m = r at hxy ⊢
  generalize y m' = r' at hxy ⊢
  cases hxy with
  | ok hn ha => exact .after hn.1 (hf _ _ _ hn.1 ha _ _ (B.later_refl _) hn.2)
  | error hn hf => exact .error hn hf

theorem map {x : Exec α} {y : Exec β} {f : α → α'} {g : β → β'} (h : B.Along s A x y)
    (hf : ∀ t a b, A t a b → C t (f a) (g b)) : B.Along s C (f <$> x) (g <$> y) := by
  intro m m' hl hm
  have hxy := h m m' hl hm
  rw [Outcome.map_apply, Outcome.map_apply]
  generalize x m = r at hxy ⊢
  generalize y m' = r' at hxy ⊢
  cases hxy with
  | ok hn ha => exact .ok hn (hf _ _ _ ha)
  | error hn hf => exact .error hn hf

theorem done (a : α) (b : β) : B.Along s Done (pure a) (pure b) := fun _ _ hl hm => .ok ⟨hl, hm⟩ trivial

/-- What goes on depends on the states. -/
theorem get {f g : Machine → Exec α} {C : Store → α → α → Prop}
    (h : ∀ m m', B.later s m.world.store → B.Machines m m' → B.Along m.world.store C (f m) (g m')) :
    B.Along s C (get >>= f) (get >>= g) :=
  fun m m' hl hm => .after hl (h m m' hl hm m m' (B.later_refl _) hm)

/-- What goes on depends on the stores. -/
theorem store {f g : Store → Exec α} {C : Store → α → α → Prop}
    (h : ∀ t t', B.later s t → B.store t t' → B.Along t C (f t) (g t')) :
    B.Along s C (Exec.store >>= f) (Exec.store >>= g) :=
  fun m m' hl hm => .after hl (h _ _ hl hm.world.store m m' (B.later_refl _) hm)

theorem set {n n' : Machine} (hn : B.Machines n n') (hl : B.later s n.world.store) :
    B.Along s Done (set n) (set n') := fun _ _ _ _ => .ok ⟨hl, hn⟩ trivial

/-- What goes on starts from the states that were set. -/
theorem set_bind {n n' : Machine} {f g : PUnit → Exec α} {C : Store → α → α → Prop} (hn : B.Machines n n')
    (hl : B.later s n.world.store) (h : B.Along n.world.store C (f ⟨⟩) (g ⟨⟩)) :
    B.Along s C (MonadStateOf.set n >>= f) (MonadStateOf.set n' >>= g) :=
  fun _ _ _ _ => .after hl (h n n' (B.later_refl _) hn)

/-- The machines change, and their worlds do not. -/
theorem modify {f g : Machine → Machine} (hf : ∀ m, (f m).world = m.world)
    (h : ∀ m m', B.later s m.world.store → B.Machines m m' → B.Machines (f m) (g m')) :
    B.Along s Done (modify f) (modify g) :=
  fun m m' hl hm => .ok ⟨(hf m).symm ▸ hl, h m m' hl hm⟩ trivial

theorem update {f : Store → α × Store} {g : Store → β × Store}
    (h : ∀ t t', B.later s t → B.store t t' →
      B.later t (f t).2 ∧ B.store (f t).2 (g t').2 ∧ A (f t).2 (f t).1 (g t').1) :
    B.Along s A (Exec.update f) (Exec.update g) := by
  intro m m' hl hm
  obtain ⟨hlater, hs, ha⟩ := h _ _ hl hm.world.store
  exact .ok ⟨B.later_trans hl hlater, hm.withStore hlater hs⟩ ha

theorem modifyStore {f g : Store → Store}
    (h : ∀ t t', B.later s t → B.store t t' → B.later t (f t) ∧ B.store (f t) (g t')) :
    B.Along s Done (Exec.modifyStore f) (Exec.modifyStore g) :=
  update fun t t' hl ht => ⟨(h t t' hl ht).1, (h t t' hl ht).2, trivial⟩

theorem push {v v' : Value} (hv : B.value s v v') : B.Along s Done (Exec.push v) (Exec.push v') :=
  modify (fun _ => rfl) fun _ _ hl hm => { hm with stack := .cons (B.value_later hl hv) hm.stack }

theorem jump (target : Nat) : B.Along s Done (Exec.jump target) (Exec.jump target) := by
  refine modify (fun m => ?_) fun _ _ _ hm => hm.jump target
  unfold Machine.jump
  split <;> rfl

theorem awaitFault (message : Option String) {span : Option Span} (hspan : B.place span) (catchAt : Nat) :
    B.Along s Done (Exec.awaitFault message span catchAt) (Exec.awaitFault message span catchAt) := by
  refine .modify (fun _ => rfl) fun m m' _ hm => { hm with handlers := ⟨?_, ?_⟩ }
  · dsimp only
    rw [hm.handlers.1, hm.frames.length_eq, hm.envs.1, hm.env.1, hm.stack.length_eq]
  · exact List.forall_mem_cons.2 ⟨⟨hspan, hm.env.2⟩, hm.handlers.2⟩

end Along

end

theorem forall₂_cutTo {α β : Type} {A : α → β → Prop} {xs : List α} {ys : List β}
    (h : List.Forall₂ A xs ys) (height : Nat) : List.Forall₂ A (cutTo height xs) (cutTo height ys) := by
  unfold cutTo
  rw [h.length_eq]
  exact List.forall₂_drop _ h

theorem mem_of_mem_cutTo {α : Type} {xs : List α} {height : Nat} {x : α} (h : x ∈ cutTo height xs) :
    x ∈ xs :=
  List.mem_of_mem_drop h

namespace Lawful

variable (L : B.Lawful o)

include L

/-! ## Stores -/

theorem defineAll {s s' : Store} (e : EnvRef) (names : List String) {vs vs' : List Value} (hs : B.store s s')
    (hvs : List.Forall₂ (B.value s) vs vs') :
    B.later s (s.defineAll e names vs) ∧ B.store (s.defineAll e names vs) (s'.defineAll e names vs') := by
  induction names generalizing s s' vs vs' with
  | nil => exact ⟨B.later_refl s, hs⟩
  | cons name names ih =>
    cases hvs with
    | nil => exact ⟨B.later_refl s, hs⟩
    | cons hv hvs =>
      obtain ⟨hl, hd⟩ := L.define e name hs hv
      obtain ⟨hl', hd'⟩ := ih hd (hvs.imp fun _ _ h => B.value_later hl h)
      exact ⟨B.later_trans hl hl', hd'⟩

/-- A method bound to an instance. -/
theorem bind {s s' : Store} {c c' : Closure} (hs : B.store s s') (hc : B.Closures s c c') (this : InstanceRef) :
    B.later s (s.bind c this).2 ∧ B.store (s.bind c this).2 (s'.bind c' this).2
      ∧ B.Closures (s.bind c this).2 (s.bind c this).1 (s'.bind c' this).1 := by
  obtain ⟨-, henv, hthere⟩ := L.closure hc
  obtain ⟨hl, hn, hnew⟩ := L.newEnv hs hthere
  obtain ⟨hl', hd⟩ := L.define s.envs.size "this" hn (L.inert (v := .object this) trivial)
  have hbound := L.moved (B.value_later (B.later_trans hl hl') hc) (B.env_later hl' hnew)
  unfold Store.bind
  dsimp only [Store.newEnv] at hl hl' hd hbound ⊢
  rw [L.envs hs, henv]
  exact ⟨B.later_trans hl hl', hd, hbound⟩

/-- A member is taken out of its instance. -/
theorem take {s s' : Store} {f f' : Member} (hs : B.store s s') (hf : B.Members s f f') :
    B.later s (s.take f).2 ∧ B.store (s.take f).2 (s'.take f').2
      ∧ B.value (s.take f).2 (s.take f).1 (s'.take f').1 := by
  cases hf with
  | value hv => exact ⟨B.later_refl s, hs, hv⟩
  | method hc this => exact L.bind hs hc this

theorem writeTo {s s' : Store} (name : String) {v v' : Value} (hs : B.store s s') (hv : B.value s v v')
    (found : Except Cause EnvRef) : B.Writes s (s.writeTo name v found) (s'.writeTo name v' found) := by
  cases found with
  | ok a => exact .ok (L.define a name hs hv) trivial
  | error c => exact .error ⟨B.later_refl s, hs⟩ trivial

/-! ## Parts of instructions -/

section

variable {α β : Type} {A : Store → α → β → Prop}

theorem fail (c : Cause) : B.Along s A (Exec.fail c) (Exec.fail c) :=
  fun _ _ hl hm => .error ⟨hl, hm⟩ (L.unplaced c)

theorem lift {x : Except Cause α} {y : Except Cause β}
    (hA : ∀ {t a b}, B.later s t → A s a b → A t a b) (h : YieldAlike (A s) x y) :
    B.Along s A (Exec.lift x) (Exec.lift y) := by
  cases h with
  | ok h => exact fun _ _ hl hm => .ok ⟨hl, hm⟩ (hA hl h)
  | error c => exact L.fail c

/-- Something that both read in the same way. -/
theorem lift_eq {x y : Except Cause α} (h : y = x) : B.Along s (fun _ => Eq) (Exec.lift x) (Exec.lift y) :=
  L.lift (fun _ h => h) (.of_eq h)

/-- The result of an operation, which both compute in the same way, is pushed. -/
theorem push_inert {x y : Except Cause Value} {E : Cause → Prop} (h : y = x) (hx : Yields x Value.Inert E) :
    B.Along s Done (Exec.lift x >>= Exec.push) (Exec.lift y >>= Exec.push) := by
  subst h
  cases y with
  | error c => exact (L.fail (A := fun _ _ _ => False) c).bind fun _ _ _ _ h => h.elim
  | ok v => exact .push (L.inert hx)

theorem onStore {x y : StoreM Unit} (h : ∀ t t', B.later s t → B.store t t' → B.Writes t (x t) (y t')) :
    B.Along s Done (Exec.onStore x) (Exec.onStore y) := by
  intro m m' hl hm
  have hxy := h _ _ hl hm.world.store
  unfold Exec.onStore
  generalize x m.world.store = r at hxy ⊢
  generalize y m'.world.store = r' at hxy ⊢
  cases hxy with
  | ok ht _ => exact .ok ⟨B.later_trans hl ht.1, hm.withStore ht.1 ht.2⟩ trivial
  | error ht _ => exact .error ⟨B.later_trans hl ht.1, hm.withStore ht.1 ht.2⟩ (L.unplaced _)

end

theorem pop {op op' : Op} (hop : op'.text = op.text) : B.Along s B.value (Exec.pop op) (Exec.pop op') := by
  refine .get fun m m' _ hm => ?_
  have hstack := hm.stack
  generalize hst : m.stack = st at hstack ⊢
  generalize hst' : m'.stack = st' at hstack ⊢
  cases hstack with
  | nil =>
    rw [hop]
    exact L.fail _
  | cons hv hrest =>
    refine .set_bind { hm with stack := hrest } (B.later_refl _) ?_
    exact fun _ _ hl hn => .ok ⟨hl, hn⟩ (B.value_later hl hv)

theorem peek (op : Op) : B.Along s B.value (Exec.peek op) (Exec.peek op) := by
  refine .get fun m m' _ hm => ?_
  have hstack := hm.stack
  generalize m.stack = st at hstack ⊢
  generalize m'.stack = st' at hstack ⊢
  cases hstack with
  | nil => exact L.fail _
  | cons hv _ => exact fun _ _ hl hm => .ok ⟨hl, hm⟩ (B.value_later hl hv)

theorem popMany (op : Op) (count : Nat) :
    B.Along s (fun t => List.Forall₂ (B.value t)) (Exec.popMany op count) (Exec.popMany op count) := by
  refine .get fun m m' _ hm => ?_
  rw [← hm.stack.length_eq]
  dsimp only
  split
  · exact (L.fail (A := fun _ _ _ => False) _).bind fun _ _ _ _ h => h.elim
  · refine .set_bind { hm with stack := List.forall₂_drop count hm.stack } (B.later_refl _) ?_
    refine fun _ _ hl hn => .ok ⟨hl, hn⟩ ?_
    exact (List.rel_reverse (List.forall₂_take count hm.stack)).imp fun _ _ hv => B.value_later hl hv

/-- A new scope. -/
theorem scope {p : EnvRef} (hp : B.env s p) :
    B.Along s (fun t e e' => e' = e ∧ B.env t e) (Exec.newEnv p) (Exec.newEnv p) :=
  .update fun t t' hl ht => by
    obtain ⟨hlater, hs, he⟩ := L.newEnv ht (B.env_later hl hp)
    exact ⟨hlater, hs, L.envs ht, he⟩

theorem lookup (name : String) (depth : Option Nat) :
    B.Along s B.value (Exec.lookup name depth) (Exec.lookup name depth) := by
  refine .get fun m m' _ hm => ?_
  cases depth with
  | some n =>
    dsimp only
    rw [hm.env.1]
    exact L.lift B.value_later (L.getAt _ _ _ hm.world.store)
  | none =>
    dsimp only
    rw [hm.globals.1]
    exact L.lift B.value_later (L.getFrom _ _ hm.world.store)

theorem assign (name : String) (depth : Option Nat) {v v' : Value} (hv : B.value s v v') :
    B.Along s Done (Exec.assign name depth v) (Exec.assign name depth v') := by
  refine .get fun m m' hl hm => ?_
  have hv := B.value_later hl hv
  cases depth with
  | some n =>
    dsimp only
    rw [hm.env.1]
    refine L.onStore fun t t' hl ht => ?_
    rw [Store.assignAt_apply, Store.assignAt_apply, L.holderAt _ _ _ ht]
    exact L.writeTo name ht (B.value_later hl hv) _
  | none =>
    dsimp only
    rw [hm.globals.1]
    refine L.onStore fun t t' hl ht => ?_
    rw [Store.assign_apply, Store.assign_apply, L.holder _ _ ht]
    exact L.writeTo name ht (B.value_later hl hv) _

theorem declare (e : EnvRef) (name : String) {v v' : Value} (hv : B.value s v v') :
    B.Along s Done (Exec.onStore (Store.declare e name v)) (Exec.onStore (Store.declare e name v')) := by
  refine L.onStore fun t t' hl ht => ?_
  rw [Store.declare_apply, Store.declare_apply, L.hasLocal _ _ ht]
  split
  · exact .error ⟨B.later_refl t, ht⟩ trivial
  · exact .ok (L.define e name ht (B.value_later hl hv)) trivial

theorem leaveScopes (op : Op) (count : Nat) :
    B.Along s Done (Exec.leaveScopes op count) (Exec.leaveScopes op count) := by
  induction count generalizing s with
  | zero => exact .done () ()
  | succ count ih =>
    refine .get fun m m' _ hm => ?_
    rw [hm.env.1, L.parent _ hm.world.store]
    cases hp : (m.world.store.env m.env).parent with
    | none => exact L.fail _
    | some p =>
      have hout := L.outer hm.world.store hm.env.2 hp
      exact .set_bind { hm with env := ⟨rfl, hout⟩ } (B.later_refl _) ih

/-- Leaving a call. -/
theorem returnFrom (op : Op) : B.Along s Done (Exec.returnFrom op) (Exec.returnFrom op) := by
  refine (L.pop rfl).bind fun t v v' _ hv => .get fun m m' hl hm => ?_
  have hv := B.value_later hl hv
  have hframes := hm.frames
  generalize m.frames = fs at hframes ⊢
  generalize m'.frames = fs' at hframes ⊢
  cases hframes with
  | nil => exact L.fail _
  | cons hf hfs =>
    cases hf with
    | mk _ ip name span base =>
      have henvs := hm.envs.2
      have hcut := forall₂_cutTo hm.stack base
      dsimp only
      rw [hm.envs.1]
      refine .set_bind { hm with frames := hfs, stack := hcut, envs := ⟨rfl, hm.envs.2⟩ }
        (B.later_refl _) ?_
      cases he : m.envs with
      | nil => exact L.fail _
      | cons e es =>
        rw [he] at henvs
        obtain ⟨hhead, htail⟩ := List.forall_mem_cons.1 henvs
        exact .set { hm with
          frames := hfs, stack := .cons hv hcut, env := ⟨rfl, hhead⟩, envs := ⟨rfl, htail⟩ }
          (B.later_refl _)

theorem classStatement {op op' : Op} (hop : op'.text = op.text) (name : String)
    {ms ms' : List FunctionDecl} (hms : List.Forall₂ B.decl ms ms') :
    B.Along s Done (Exec.declareClass op name ms) (Exec.declareClass op' name ms') := by
  have hdeclare {t : Store} {x x' : Option Value} (hx : Option.Rel (B.value t) x x') :
      B.Along t Done
        (do Exec.onStore (Store.declareClass (← get).env name x ms))
        (do Exec.onStore (Store.declareClass (← get).env name x' ms')) := by
    refine .get fun m m' hl hm => ?_
    rw [hm.env.1]
    refine L.onStore fun u u' hl' hu => ?_
    refine L.declareClass name hu (B.env_later hl' hm.env.2) ?_ hms
    cases hx with
    | none => exact .none
    | some hv => exact .some (B.value_later (B.later_trans hl hl') hv)
  refine (L.pop hop).bind fun t v v' _ hv => ?_
  cases L.shape hv with
  | closure _ _ => exact hdeclare .none
  | plain _ =>
    cases v with
    | bool b =>
      cases b with
      | true =>
        refine Along.bind (A := fun t => Option.Rel (B.value t)) ?_ fun _ _ _ _ hx => hdeclare hx
        exact (L.pop hop).map fun _ _ _ hv => .some hv
      | false => exact hdeclare .none
    | _ => exact hdeclare .none

theorem missedFault (op : Op) : B.Along s Done (Exec.missedFault op) (Exec.missedFault op) := by
  refine (L.pop rfl).bind fun _ v v' _ hv => .store fun t t' hl ht => ?_
  refine (L.lift_eq (L.truth ht (B.value_later hl hv))).bind fun _ _ _ _ _ => .get fun m m' _ hm => ?_
  have hhandlers := hm.handlers.2
  rw [hm.handlers.1]
  cases hk : m.handlers with
  | nil => exact L.fail _
  | cons k ks =>
    rw [hk] at hhandlers
    obtain ⟨hhead, htail⟩ := List.forall_mem_cons.1 hhandlers
    refine .set_bind { hm with handlers := ⟨rfl, htail⟩ } (B.later_refl _) ?_
    exact fun _ _ hl hn => .error ⟨hl, hn⟩ (L.placed hhead.1)

/-! ## Calls -/

/-- A call of a native. -/
theorem callNative (f : Native) {args args' : List Value} (hargs : List.Forall₂ (B.value s) args args') :
    B.Along s Done (Exec.native o f args) (Exec.native o f args') := by
  intro m m' hl hm
  have hcall := L.native f hm.world (hargs.imp fun _ _ hv => B.value_later hl hv)
  unfold Exec.native
  generalize NativeM.call o f args m.world = r at hcall ⊢
  generalize NativeM.call o f args' m'.world = r' at hcall ⊢
  cases hcall with
  | ok hw hv =>
    have hn := hm.withWorld hw.1 hw.2
    exact .ok ⟨B.later_trans hl hw.1, { hn with stack := .cons hv hn.stack }⟩ trivial
  | error hw hf => exact .error ⟨B.later_trans hl hw.1, hm.withWorld hw.1 hw.2⟩ hf

/-- Entering a function, whose chunk may have to be compiled. -/
theorem enter {c c' : Closure} (hc : B.Closures s c c') {args args' : List Value}
    (hargs : List.Forall₂ (B.value s) args args') (span : Option Span) :
    B.Along s Done (Exec.enter o c args span) (Exec.enter o c' args' span) := by
  obtain ⟨hdecl, henv, hthere⟩ := L.closure hc
  obtain ⟨hname, hparams⟩ := L.decl hdecl
  unfold Exec.enter
  rw [henv, hname, hparams]
  refine .get fun m m' hl hm => ?_
  rw [← hm.frames.length_eq]
  dsimp only
  split
  · exact (L.fail (A := fun _ _ _ => False) _).bind fun _ _ _ _ h => h.elim
  · have hchunk : B.Along m.world.store (fun _ => B.chunk) (Exec.chunkFor c.decl) (Exec.chunkFor c'.decl) :=
      fun _ _ hl hn => .after hl (L.chunkFor hdecl hn)
    refine hchunk.bind fun t chunk chunk' ht hchunk => ?_
    have hl := B.later_trans hl ht
    refine (L.scope (B.env_later hl hthere)).bind ?_
    rintro u _ e hu ⟨rfl, he⟩
    have hl := B.later_trans hl hu
    refine Along.bind (A := fun _ _ _ => True) (.modifyStore fun v v' hv hs => ?_) fun v _ _ hv _ => ?_
    · exact L.defineAll e _ hs (hargs.imp fun _ _ h => B.value_later (B.later_trans hl hv) h)
    · refine .modify (fun _ => rfl) fun n n' hl hn => { hn with env := ⟨rfl, ?_⟩, envs := ⟨?_, ?_⟩, frames := ?_ }
      · exact B.env_later (B.later_trans hv hl) he
      · dsimp only
        rw [hn.env.1, hn.envs.1]
      · exact List.forall_mem_cons.2 ⟨hn.env.2, hn.envs.2⟩
      · dsimp only
        rw [hn.stack.length_eq]
        exact .cons (.mk hchunk ..) hn.frames

/-- A call of a value, by what the value is. -/
theorem call {f f' : Value} {args args' : List Value} (hf : B.value s f f')
    (hargs : List.Forall₂ (B.value s) args args') (span : Option Span) :
    B.Along s Done (Exec.call o f args span) (Exec.call o f' args' span) := by
  unfold Exec.call
  refine .store fun t t' hl ht => ?_
  have hf := B.value_later hl hf
  have hargs := hargs.imp fun _ _ hv => B.value_later hl hv
  have harity {c c' : Callable} (hc : B.value t (.callable c) (.callable c')) :
      B.Along t (fun _ => Eq) (Exec.lift (t.checkArity c args.length))
        (Exec.lift (t'.checkArity c' args'.length)) := by
    rw [hargs.length_eq]
    exact L.lift_eq (L.checkArity _ ht hc)
  have htext := L.repr ht hf
  cases L.shape hf with
  | closure c c' =>
    refine (harity hf).bind fun u _ _ hu _ => ?_
    exact L.enter (B.value_later hu hf) (hargs.imp fun _ _ hv => B.value_later hu hv) span
  | plain hp =>
    cases f with
    | callable c =>
      refine (harity hf).bind fun u _ _ hu _ => ?_
      have hargs := hargs.imp fun _ _ hv => B.value_later hu hv
      cases c with
      | native f => exact L.callNative f hargs
      | closure c => exact hp.elim
      | classRef r =>
        refine Along.bind (A := fun _ => Eq) (.update fun v v' _ hv => ?_) ?_
        · obtain ⟨hlater, hs⟩ := L.newInstance r hv
          exact ⟨hlater, hs, (L.instances hv).symm⟩
        rintro v i _ hv rfl
        refine .store fun w w' hw hs => ?_
        have hargs := hargs.imp fun _ _ h => B.value_later (B.later_trans hv hw) h
        obtain ⟨hx, hy⟩ | ⟨c, c', hx, hy, hc⟩ := rel_cases (L.findMethod r "init" hs)
        · rw [hx, hy]
          exact .push (L.inert (v := .object i) trivial)
        · rw [hx, hy]
          refine Along.bind (A := B.Closures) (.update fun x x' hx hs => ?_) fun x _ _ hx hb => ?_
          · exact L.bind hs (B.value_later hx hc) i
          · exact L.enter hb (hargs.imp fun _ _ h => B.value_later hx h) span
    | _ =>
      dsimp only
      rw [htext]
      exact L.fail _

/-! ## Instructions -/

/-- The fault where an instance was expected. -/
theorem notInstance {v v' : Value} (hv : B.value s v v') :
    B.Along s Done (Exec.store >>= fun s => Exec.fail (α := Unit) (.notInstance (s.repr v)))
      (Exec.store >>= fun s => Exec.fail (α := Unit) (.notInstance (s.repr v'))) := by
  refine .store fun t t' hl ht => ?_
  rw [L.repr ht (B.value_later hl hv)]
  exact L.fail _

/-- A member that was found is taken and pushed. -/
theorem takeMember {x y : Except Cause Member} (h : YieldAlike (B.Members s) x y) :
    B.Along s Done (Exec.lift x >>= fun f => Exec.update (·.take f) >>= Exec.push)
      (Exec.lift y >>= fun f => Exec.update (·.take f) >>= Exec.push) := by
  have hmember : ∀ {t u : Store} {f f' : Member}, B.later t u → B.Members t f f' → B.Members u f f' := by
    intro t u f f' hl hf
    cases hf with
    | value hv => exact .value (B.value_later hl hv)
    | method hc this => exact .method (B.value_later hl hc) this
  refine (L.lift hmember h).bind fun t f f' _ hf => ?_
  refine Along.bind (A := B.value) (.update fun u u' hl hu => ?_) fun _ _ _ _ hv => .push hv
  exact L.take hu (hmember hl hf)

/-- Related machines execute related instructions alike. -/
theorem execute {i i' : Instr} (hi : B.Instrs i i') :
    B.Along s Done (Exec.execute o i) (Exec.execute o i') := by
  obtain ⟨op, span⟩ := i
  obtain ⟨op', span'⟩ := i'
  obtain ⟨hop, rfl, hplace⟩ := hi
  unfold Exec.execute
  cases hop with
  | constant hv => exact .push (hv s)
  | function hd =>
    refine .get fun m m' _ hm => ?_
    dsimp only
    rw [hm.env.1, (L.decl hd).1]
    exact .modifyStore fun t t' hl ht => L.define _ _ ht (L.function hd (B.env_later hl hm.env.2))
  | «class» name hms =>
    refine L.classStatement ?_ name hms
    exact congrArg (fun n => "CLASS " ++ name ++ " (" ++ toString n ++ " methods)") hms.length_eq.symm
  -- the other instructions hold no value and no declaration, so that they are the same
  | same hbare =>
    cases op with
    | constant v => exact hbare.elim
    | function decl => exact hbare.elim
    | «class» name ms => exact hbare.elim
    | pop => exact (L.pop rfl).bind fun _ _ _ _ _ => .done () ()
    | declareVar name =>
      refine (L.pop rfl).bind fun t v v' _ hv => .get fun m m' hl hm => ?_
      rw [hm.env.1]
      exact L.declare _ name (B.value_later hl hv)
    | lookup name depth => exact (L.lookup name depth).bind fun _ _ _ _ hv => .push hv
    | assign name depth => exact (L.peek _).bind fun _ _ _ _ hv => L.assign name depth hv
    | getField name =>
      refine (L.pop rfl).bind fun t v v' _ hv => ?_
      cases L.shape hv with
      | closure _ _ => exact L.notInstance hv
      | plain _ =>
        cases v with
        | object r => exact .store fun _ _ _ ht => L.takeMember (L.findMember r name ht)
        | _ => exact L.notInstance hv
    | setField name =>
      refine (L.pop rfl).bind fun t v v' _ hv => (L.pop rfl).bind fun u ob ob' hu hob => ?_
      have hv := B.value_later hu hv
      cases L.shape hob with
      | closure _ _ => exact L.notInstance hob
      | plain _ =>
        cases ob with
        | object r =>
          refine (Along.modifyStore fun x x' hx hs => ?_).bind fun x _ _ hx _ => ?_
          · exact L.setField r name hs (B.value_later hx hv)
          · exact .push (B.value_later hx hv)
        | _ => exact L.notInstance hob
    | getSuper method depth =>
      refine .get fun m m' _ hm => ?_
      rw [hm.env.1]
      exact L.takeMember (L.findSuper _ _ _ hm.world.store)
    | unary op =>
      refine (L.pop rfl).bind fun t v v' _ hv => .store fun u u' hl hu => ?_
      exact L.push_inert (L.unary op hu (B.value_later hl hv)) (u.unary_inert op v)
    | binary op =>
      refine (L.pop rfl).bind fun t r r' _ hr => (L.pop rfl).bind fun u l l' hu hl => ?_
      refine .store fun x x' hx hs => ?_
      exact L.push_inert (L.binary op hs (B.value_later hx hl) (B.value_later (B.later_trans hu hx) hr))
        (x.binary_inert op l r)
    | logical op =>
      refine (L.pop rfl).bind fun t r r' _ hr => (L.pop rfl).bind fun u l l' hu hl => ?_
      refine .store fun x x' hx hs => ?_
      exact L.push_inert (L.logical op hs (B.value_later hx hl) (B.value_later (B.later_trans hu hx) hr))
        (x.logical_inert op l r)
    | jump target => exact .jump target
    | jumpIfFalse target =>
      refine (L.peek _).bind fun t v v' _ hv => .store fun u u' hl hu => ?_
      refine (L.lift_eq (L.truth hu (B.value_later hl hv))).bind ?_
      rintro _ b _ _ rfl
      cases b with
      | true => exact .done () ()
      | false => exact .jump target
    | repeatTest target =>
      refine (L.peek _).bind fun t v v' _ hv => .store fun u u' hl hu => ?_
      refine (L.lift_eq (L.rounds hu (B.value_later hl hv))).bind ?_
      rintro _ n _ _ rfl
      split
      · exact .jump target
      · exact .done () ()
    | enterScope =>
      refine .get fun m m' _ hm => ?_
      rw [hm.env.1]
      refine (L.scope hm.env.2).bind ?_
      rintro t _ e _ ⟨rfl, he⟩
      exact .modify (fun _ => rfl) fun _ _ hl hn => { hn with env := ⟨rfl, B.env_later hl he⟩ }
    | leaveScope count => exact L.leaveScopes _ count
    | call count =>
      refine (L.pop rfl).bind fun t f f' _ hf => (L.popMany _ count).bind ?_
      exact fun u args args' hu hargs => L.call (B.value_later hu hf) hargs _
    | «return» => exact L.returnFrom _
    | assert message =>
      refine (L.pop rfl).bind fun t v v' _ hv => .store fun u u' hl hu => ?_
      refine (L.lift_eq (L.truth hu (B.value_later hl hv))).bind ?_
      rintro _ b _ _ rfl
      cases b with
      | true => exact .done () ()
      | false => exact L.fail _
    | failureBegin message catchAt => exact .awaitFault message hplace catchAt
    | failureEnd => exact L.missedFault _

end Lawful

/-! ## Steps -/

namespace Machines

/-- A handler takes over. -/
theorem unwindTo (h : B.Machines m m') {k : Handler} (hk : B.env m.world.store k.env) {ks : List Handler}
    (hks : ∀ k ∈ ks, B.place k.span ∧ B.env m.world.store k.env) :
    B.Machines (m.unwindTo k ks) (m'.unwindTo k ks) :=
  { h with
    handlers := ⟨rfl, hks⟩
    frames := forall₂_cutTo h.frames _
    envs := ⟨congrArg (cutTo k.envs) h.envs.1, fun e he => h.envs.2 e (mem_of_mem_cutTo he)⟩
    env := ⟨rfl, hk⟩
    stack := forall₂_cutTo h.stack _ }

/-- The same fault is left after the handlers, and it has a place if the one before them had. -/
theorem recover (h : B.Machines m m') {ks : List Handler}
    (hks : ∀ k ∈ ks, B.place k.span ∧ B.env m.world.store k.env) {f : Fault} (hf : B.place f.span) :
    (Machine.recover ks f m').1 = (Machine.recover ks f m).1
      ∧ (Machine.recover ks f m).2.world = m.world
      ∧ B.Machines (Machine.recover ks f m).2 (Machine.recover ks f m').2
      ∧ ∀ g, (Machine.recover ks f m).1 = some g → B.place g.span := by
  induction ks generalizing f m m' with
  | nil =>
    refine ⟨rfl, rfl, { h with handlers := ⟨rfl, by rintro _ ⟨⟩⟩ }, ?_⟩
    rintro g ⟨⟩
    exact hf
  | cons k ks ih =>
    obtain ⟨hk, hks⟩ := List.forall_mem_cons.1 hks
    have hu := h.unwindTo hk.2 hks
    have hworld : ((m.unwindTo k ks).jump k.catchAt).world = m.world := by
      unfold Machine.jump
      split <;> rfl
    unfold Machine.recover
    dsimp only
    split
    · exact ⟨rfl, hworld, hu.jump _, by rintro g ⟨⟩⟩
    · split
      · exact ⟨rfl, hworld, hu.jump _, by rintro g ⟨⟩⟩
      · exact ih (f := { cause := .otherError f.message, span := k.span }) hu hks hk.1

/-- A fault ends both programs. -/
theorem fail (h : B.Machines m m') (ht : B.flag true) (f : Fault) : B.Machines (m.fail o f) (m'.fail o f) := by
  have hcalls : m'.frames.dropLast.map Frame.text = m.frames.dropLast.map Frame.text := by
    have hf := h.frames
    generalize m.frames = fs at hf ⊢
    generalize m'.frames = fs' at hf ⊢
    rw [List.map_dropLast, List.map_dropLast]
    refine congrArg List.dropLast ?_
    induction hf with
    | nil => rfl
    | cons hf _ ih =>
      cases hf with
      | mk => exact congrArg (List.cons _) ih
  unfold Machine.fail
  dsimp only
  rw [hcalls]
  have hw := h.inJournal (World.store_reportFault m.world o f _)
    (h.world.reportFault o f (m.frames.dropLast.map Frame.text))
  exact { hw with failed := ⟨rfl, ht⟩, frames := .nil, handlers := ⟨rfl, by rintro _ ⟨⟩⟩ }

end Machines

/-- What a step of related machines comes to. Where it ends the program with a fault, it has reported one
    that has a place. -/
structure Steps (B : Bond) (o : Options) (m : Machine) (r r' : Verdict × Machine) : Prop where
  verdict : r'.1 = r.1
  later : B.later m.world.store r.2.world.store
  machines : B.Machines r.2 r'.2
  reported : m.frames ≠ [] → r.1 = .runtimeError → ∃ (before : World) (f : Fault) (calls : List String),
    B.place f.span ∧ r.2.world = before.reportFault o f calls

namespace Lawful

variable (L : B.Lawful o)

include L

theorem dump (h : B.Machines m m') {c c' : Chunk} (hc : B.chunk c c') (ip : Nat) :
    B.later m.world.store (m.dump o c ip).world.store ∧ B.Machines (m.dump o c ip) (m'.dump o c' ip) := by
  have hvalues : (m'.stack.take Machine.dumpDepth).map m'.world.store.repr
      = (m.stack.take Machine.dumpDepth).map m.world.store.repr := by
    have hst := List.forall₂_take Machine.dumpDepth h.stack
    generalize m.stack.take Machine.dumpDepth = st at hst ⊢
    generalize m'.stack.take Machine.dumpDepth = st' at hst ⊢
    induction hst with
    | nil => rfl
    | cons hv _ ih => rw [List.map_cons, List.map_cons, L.repr h.world.store hv, ih]
  have hline : m'.dumpLine c' ip = m.dumpLine c ip := by
    unfold Machine.dumpLine
    rw [hvalues, L.decode ip hc]
  unfold Machine.dump
  split
  · have hstore : ∀ line, (m.world.writeDump o line).store = m.world.store := fun line => by
      unfold World.writeDump
      split <;> rfl
    rw [hline]
    refine ⟨?_, h.inJournal (hstore _) (h.world.writeDump o _)⟩
    dsimp only
    rw [hstore]
    exact B.later_refl _
  · exact ⟨B.later_refl _, h⟩

/-- After an instruction, the machines are asked for their status. -/
theorem status {n : Machine} (hl : B.later n.world.store m.world.store) (h : B.Machines m m') :
    B.Steps o n m.status m'.status := by
  have hf := h.frames
  unfold Machine.status
  generalize m.frames = fs at hf ⊢
  generalize m'.frames = fs' at hf ⊢
  cases hf with
  | nil => exact ⟨rfl, hl, h, nofun⟩
  | cons hf hfs =>
    cases hfs with
    | nil =>
      cases hf with
      | mk hc =>
        dsimp only
        rw [L.size hc]
        split
        · exact ⟨rfl, hl, { h with frames := .nil }, nofun⟩
        · exact ⟨rfl, hl, h, nofun⟩
    | cons _ _ => exact ⟨rfl, hl, h, nofun⟩

/-- Related machines make the same step. -/
theorem step (ht : B.flag true) (h : B.Machines m m') : B.Steps o m (m.step o) (m'.step o) := by
  have hf := h.frames
  unfold Machine.step
  generalize hnil : m.frames = fs at hf ⊢
  generalize m'.frames = fs' at hf ⊢
  cases hf with
  | nil =>
    dsimp only
    rw [h.failed.1]
    exact ⟨rfl, B.later_refl _, h, fun hne => absurd hnil hne⟩
  | @cons f f' rest rest' hf hfs =>
    cases hf with
    | @mk c c' hc ip name span base =>
      dsimp only
      obtain ⟨hx, hy⟩ | ⟨i, i', hx, hy, hi⟩ := rel_cases (L.instr ip hc)
      · rw [hx, hy]
        exact ⟨rfl, B.later_refl _, { h with frames := .nil }, nofun⟩
      · rw [hx, hy]
        dsimp only
        -- counted and dumped, the machines are ready; the instruction runs, and a fault is either
        -- caught by a handler or reported
        have hcounted : B.Machines
            { m with frames := ⟨c, ip + 1, name, span, base⟩ :: rest, count := m.count + 1 }
            { m' with frames := ⟨c', ip + 1, name, span, base⟩ :: rest', count := m'.count + 1 } :=
          { h with frames := .cons (.mk hc ..) hfs, count := by rw [h.count] }
        obtain ⟨hl, hready⟩ := L.dump hcounted hc ip
        have hdone := L.execute hi _ _ hl hready
        generalize Exec.execute o i _ = x at hdone ⊢
        generalize Exec.execute o i' _ = x' at hdone ⊢
        cases hdone with
        | ok hn _ => exact L.status hn.1 hn.2
        | @error n n' fault hn hfault =>
          obtain ⟨hleft, hworld, hafter, hplace⟩ :=
            hn.2.recover hn.2.handlers.2 (L.located hfault hi.place)
          dsimp only
          rw [hn.2.handlers.1, hi.span]
          generalize Machine.recover n.handlers (fault.locate i.span) n = y at hleft hworld hafter hplace ⊢
          generalize Machine.recover n.handlers (fault.locate i.span) n' = y' at hleft hafter ⊢
          obtain ⟨_, u⟩ := y
          obtain ⟨left, u'⟩ := y'
          obtain rfl : left = _ := hleft
          have hl : B.later m.world.store u.world.store := (congrArg World.store hworld).symm ▸ hn.1
          cases left with
          | none => exact L.status hl hafter
          | some left =>
            refine ⟨rfl, ?_, hafter.fail ht left, fun _ _ => ⟨_, left, _, hplace left rfl, rfl⟩⟩
            show B.later _ (World.reportFault ..).store
            rw [World.store_reportFault]
            exact hl

/-- Related machines run in the same way to the end of their programs. -/
theorem interpret (ht : B.flag true) (h : B.Machines m m') (fuel : Nat) :
    (m'.interpret o fuel).1 = (m.interpret o fuel).1
      ∧ B.Machines (m.interpret o fuel).2 (m'.interpret o fuel).2 := by
  induction fuel generalizing m m' with
  | zero => exact ⟨rfl, h⟩
  | succ n ih =>
    obtain ⟨hstop, hworld⟩ := h.world.poll o
    have hpolled := h.inJournal (World.store_poll m.world o) hworld
    unfold Machine.interpret
    generalize m.world.poll o = p at hstop hpolled ⊢
    generalize m'.world.poll o = p' at hstop hpolled ⊢
    obtain ⟨_, world⟩ := p
    obtain ⟨stop, world'⟩ := p'
    obtain rfl : stop = _ := hstop
    cases stop with
    | true => exact ⟨rfl, hpolled.fail ht _⟩
    | false =>
      obtain ⟨hverdict, -, hafter, -⟩ := L.step ht hpolled
      dsimp only at hverdict hafter ⊢
      generalize Machine.step o { m with world := world } = y at hverdict hafter ⊢
      generalize Machine.step o { m' with world := world' } = y' at hverdict hafter ⊢
      obtain ⟨_, t⟩ := y
      obtain ⟨verdict, t'⟩ := y'
      obtain rfl : verdict = _ := hverdict
      cases verdict with
      | nextStep => exact ih hafter
      | ok | compileError | runtimeError => exact ⟨rfl, hafter⟩

end Lawful

end Bond

end Eleu

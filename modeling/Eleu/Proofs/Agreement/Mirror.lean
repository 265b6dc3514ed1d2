import Eleu.Proofs.Agreement.Ticks
import Eleu.Proofs.Library.Blind
import Eleu.Proofs.Machine.Cache

/-! # A machine that mirrors the walker

    `Machine.Mirrors` relates the two executors at a place in the code of a frame: they have the
    same world up to the dump, the same environment and the same active calls, and what lies below
    the frame is fixed by an `Activation`. Each instruction then does what the walker does at that
    place (`Matches`), be it a value or a fault. -/

namespace Eleu

/-! ## Worlds that differ in the dump -/

/-- The worlds differ at most in their dumps. -/
def World.Like (w w' : World) : Prop := ∃ dump, w' = w.withDump dump

namespace World.Like

variable {w w' : World}

theorem refl (w : World) : w.Like w := ⟨w.journal.dump, rfl⟩

theorem store (h : w.Like w') : w'.store = w.store := by
  obtain ⟨dump, rfl⟩ := h
  rfl

theorem setStore (h : w.Like w') (s : Store) :
    World.Like { w with store := s } { w' with store := s } := by
  obtain ⟨dump, rfl⟩ := h
  exact ⟨dump, rfl⟩

theorem writeDump (h : w.Like w') (o : Options) (line : String) : w.Like (w'.writeDump o line) := by
  obtain ⟨dump, rfl⟩ := h
  unfold World.writeDump
  split
  · exact ⟨_, rfl⟩
  · exact ⟨dump, rfl⟩

theorem complain (h : w.Like w') (line : String) : (w.complain line).Like (w'.complain line) := by
  obtain ⟨dump, rfl⟩ := h
  exact ⟨dump, rfl⟩

theorem complainAll (h : w.Like w') (lines : List String) :
    (w.complainAll lines).Like (w'.complainAll lines) := by
  induction lines generalizing w w' with
  | nil => exact h
  | cons line lines ih => exact ih (h.complain line)

theorem reportFault (h : w.Like w') (o : Options) (f : Fault) (calls : List String) :
    (w.reportFault o f calls).Like (w'.reportFault o f calls) := by
  unfold World.reportFault
  dsimp only
  split
  · exact ((h.complain f.text).complain _).complainAll _
  · exact h.complain f.text

end World.Like

/-! ## Initialisers -/

/-- The methods that classes have under the name `init` are their initialisers. -/
def Store.Named (s : Store) : Prop :=
  ∀ ⦃r : ClassRef⦄ ⦃name : String⦄ ⦃c : Closure⦄, (s.classAt r).methods.get? name = some c →
    c.isInit = (name == "init")

namespace Store.Named

variable {s t : Store}

theorem of_methods (h : s.Named) (hm : ∀ r, (t.classAt r).methods = (s.classAt r).methods) :
    t.Named := by
  intro r name c hget
  rw [hm] at hget
  exact h hget

/-- Only the classes matter. -/
theorem of_classes (h : s.Named) (hc : t.classes = s.classes) : t.Named :=
  h.of_methods fun r => by simp [Store.classAt, hc]

theorem setMethod (h : s.Named) (r : ClassRef) (e : EnvRef) (decl : FunctionDecl) :
    (s.setMethod r decl.name (Store.methodOf e decl)).Named := by
  intro q name c hget
  rw [Store.methods_setMethod] at hget
  split at hget
  · next hq =>
      obtain ⟨-, -, rfl⟩ := hq
      cases hget
      rfl
  · exact h hget

theorem addMethods (h : s.Named) (r : ClassRef) (e : EnvRef) (methods : List FunctionDecl) :
    (s.addMethods r e methods).Named := by
  induction methods generalizing s with
  | nil => exact h
  | cons decl decls ih => exact ih (h.setMethod r e decl)

theorem openClass (h : s.Named) {e : EnvRef} {name : String} {p : Option ClassRef} {r : ClassRef}
    (hr : Store.openClass e name p s = .ok r t) : t.Named := by
  rcases Store.openClass_eq_ok hr with ⟨-, -, rfl⟩ | ⟨-, -, rfl⟩
  · intro q other c hget
    rw [Store.methods_newClass] at hget
    exact h hget
  · exact h

/-- A class statement enters its methods under their names. -/
theorem declareClass (h : s.Named) {e : EnvRef} {name : String} {superclass : Option Value}
    {methods : List FunctionDecl} (hd : Store.declareClass e name superclass methods s = .ok () t) :
    t.Named := by
  obtain ⟨p, r, s₁, -, hr, rfl⟩ := Store.declareClass_eq_ok hd
  refine Named.addMethods (of_classes (h.openClass hr) ?_) r _ methods
  cases p with
  | none => rfl
  | some q => rfl

/-- What is found as an initialiser is one. -/
theorem findMethod? (h : s.Named) {r : ClassRef} {c : Closure}
    (hc : s.findMethod? r "init" = some c) : c.isInit = true := by
  have hwithin : ∀ n r, s.methodWithin "init" n r = some c → c.isInit = true := by
    intro n
    induction n with
    | zero =>
      intro r hc
      cases hc
    | succ n ih =>
      intro r hc
      unfold Store.methodWithin at hc
      split at hc
      · next m hm =>
          cases hc
          exact h hm
      · split at hc
        · exact ih _ hc
        · cases hc
  exact hwithin _ r hc

end Store.Named

/-! ## Mirrors -/

/-- The frame on top of a machine, whose next instruction is left open, and what lies below it. -/
structure Activation where
  frame : Frame
  frames : List Frame
  envs : List EnvRef
  handlers : List Handler

namespace Activation

variable (a : Activation)

/-- The frames when the next instruction stands at `ip`. -/
def framesAt (ip : Nat) : List Frame := { a.frame with ip } :: a.frames

/-- The code of the frame. -/
def code (n : Nat) : Option Instr := a.frame.chunk.instr? n

/-- The frames below the topmost one, which are those of calls but for the last, list the calls. -/
structure Lists (calls : List CallSite) : Prop where
  length : a.frames.length = calls.length
  texts : (a.frame :: a.frames).dropLast.map Frame.text = calls.map CallSite.text

variable {a}

/-- The calls are listed as the frames are. -/
theorem Lists.texts_at {calls : List CallSite} (h : a.Lists calls) (ip : Nat) :
    (a.framesAt ip).dropLast.map Frame.text = calls.map CallSite.text := by
  rw [← h.texts, Activation.framesAt]
  cases a.frames with
  | nil => rfl
  | cons f fs => rfl

end Activation

/-- The walker `w` and the machine `m`, which is about to execute the instruction at `ip` of the frame
    of `a`, have the same world and calls. Their environments may differ. -/
structure Machine.Shadows (D : List FunctionDecl) (d : Distances) (a : Activation) (ip : Nat)
    (st : List Value) (w : Walker) (m : Machine) : Prop where
  frames : m.frames = a.framesAt ip
  envs : m.envs = a.envs
  handlers : m.handlers = a.handlers
  stack : m.stack = st
  globals : m.globals = w.globals
  world : w.world.Like m.world
  coherent : m.Coherent D d
  distances : w.distances = d
  calls : a.Lists w.calls
  trace : w.trace = none
  named : w.world.store.Named

/-- They also have the same environment. -/
structure Machine.Mirrors (D : List FunctionDecl) (d : Distances) (a : Activation) (ip : Nat)
    (st : List Value) (w : Walker) (m : Machine) : Prop
    extends m.Shadows D d a ip st w where
  env : m.env = w.env

/-- What is left of a machine that mirrored the walker when a fault arises, perhaps in a call that was
    made since: nothing below the frame of `a` and the values `st` has been touched. -/
structure Machine.Struck (D : List FunctionDecl) (d : Distances) (a : Activation) (st : List Value)
    (w : Walker) (m : Machine) : Prop where
  frames : ∃ ip, a.framesAt ip <:+ m.frames
  envs : a.envs <:+ m.envs
  handlers : m.handlers = a.handlers
  stack : st <:+ m.stack
  globals : m.globals = w.globals
  world : w.world.Like m.world
  coherent : m.Coherent D d
  named : w.world.store.Named
  texts : m.frames.dropLast.map Frame.text = (w.trace.getD w.calls).map CallSite.text

variable {o : Options} {D : List FunctionDecl} {d : Distances} {a : Activation} {ip : Nat}
  {st st' : List Value} {w w' : Walker} {m : Machine}

namespace Machine.Shadows

variable (h : m.Shadows D d a ip st w)

include h

theorem store : m.world.store = w.world.store := h.world.store

theorem setStack (st' : List Value) : Shadows D d a ip st' w { m with stack := st' } :=
  { h with stack := rfl, coherent := ⟨h.coherent.distances, h.coherent.chunks⟩ }

theorem setStore {s : Store} (hs : s.Named) : (m.setStore s).Shadows D d a ip st (w.setStore s) :=
  { h with
    world := h.world.setStore s
    coherent := ⟨h.coherent.distances, h.coherent.chunks⟩
    named := hs }

theorem jump (target : Nat) : (m.jump target).Shadows D d a target st w := by
  have hj : m.jump target = { m with frames := a.framesAt target } := by
    unfold Machine.jump
    rw [h.frames]
    rfl
  rw [hj]
  exact { h with frames := rfl, coherent := ⟨h.coherent.distances, h.coherent.chunks⟩ }

/-- The machine is made ready for its next instruction. -/
theorem ready : (m.ready o { a.frame with ip } a.frames).Shadows D d a (ip + 1) st w := by
  unfold Machine.ready Machine.dump
  split
  · exact { h with
      frames := rfl
      world := h.world.writeDump o _
      coherent := ⟨h.coherent.distances, h.coherent.chunks⟩ }
  · exact { h with frames := rfl, coherent := ⟨h.coherent.distances, h.coherent.chunks⟩ }

/-- A fault in the frame itself. -/
theorem struck (hst : st' <:+ st) : m.Struck D d a st' w where
  frames := ⟨ip, h.frames ▸ List.suffix_refl _⟩
  envs := h.envs ▸ List.suffix_refl _
  handlers := h.handlers
  stack := by rw [h.stack]; exact hst
  globals := h.globals
  world := h.world
  coherent := h.coherent
  named := h.named
  texts := by rw [h.frames, h.trace, h.calls.texts_at]; rfl

end Machine.Shadows

namespace Machine.Mirrors

variable (h : m.Mirrors D d a ip st w)

include h

theorem setStack (st' : List Value) : Mirrors D d a ip st' w { m with stack := st' } :=
  { h.toShadows.setStack st' with env := h.env }

theorem setStore {s : Store} (hs : s.Named) : (m.setStore s).Mirrors D d a ip st (w.setStore s) :=
  { h.toShadows.setStore hs with env := h.env }

/-- A change of the store that leaves its classes alone. -/
theorem inStore {s : Store} (hs : s.classes = w.world.store.classes) :
    (m.setStore s).Mirrors D d a ip st (w.setStore s) :=
  h.setStore (h.named.of_classes hs)

theorem jump (target : Nat) : (m.jump target).Mirrors D d a target st w where
  toShadows := h.toShadows.jump target
  env := by
    rw [← h.env]
    unfold Machine.jump
    rw [h.frames]
    rfl

theorem push (v : Value) : Mirrors D d a ip (v :: st) w { m with stack := v :: m.stack } := by
  rw [h.stack]
  exact h.setStack (v :: st)

theorem lookup (name : String) (depth : Option Nat) : m.lookup name depth = w.lookup name depth := by
  cases depth with
  | none => rw [Machine.lookup, Walker.lookup, h.store, h.globals]
  | some n => rw [Machine.lookup, Walker.lookup, h.store, h.env]

theorem holder (name : String) (depth : Option Nat) : m.holder name depth = w.holder name depth := by
  cases depth with
  | none => rw [Machine.holder, Walker.holder, h.store, h.globals]
  | some n => rw [Machine.holder, Walker.holder, h.store, h.env]

/-- The walker's own counter is its own business. -/
theorem count (n : Nat) : m.Mirrors D d a ip st { w with count := n } :=
  { h with }

/-- A machine that is made ready for its next instruction mirrors the walker there. -/
theorem ready : (m.ready o { a.frame with ip } a.frames).Mirrors D d a (ip + 1) st w where
  toShadows := h.toShadows.ready
  env := by
    obtain ⟨world, hready, -⟩ := ready_eq o { a.frame with ip } a.frames m
    rw [hready]
    exact h.env

end Machine.Mirrors

/-! ## Outcomes of an instruction -/

/-- A call whose arguments lie on the stack, the last one on top. -/
theorem Exec.execute_call_args {span : Span} {v : Value} {args : List Value}
    (h : m.stack = v :: (args.reverse ++ st)) :
    Exec.execute o ⟨.call args.length, span⟩ m = Exec.call o v args span { m with stack := st } := by
  rw [Exec.execute_call h (by simp)]
  rw [List.take_left' (by simp), List.drop_left' (by simp), List.reverse_reverse]

/-- The outcomes of an action of the walker and of an instruction: both give a result, or both end with
    the same fault. -/
inductive Matches {α : Type} (P : α → Walker → Machine → Prop) (F : Walker → Machine → Prop) :
    EStateM.Result Interrupt Walker α → EStateM.Result Fault Machine Unit → Prop where
  | ok {x : α} {w : Walker} {m : Machine} (h : P x w m) : Matches P F (.ok x w) (.ok () m)
  | fault {f : Fault} {w : Walker} {m : Machine} (h : F w m) :
      Matches P F (.error (.fault f) w) (.error f m)

/-- A statement has been executed and the next one follows. -/
def Proceeds (D : List FunctionDecl) (d : Distances) (a : Activation) (ip : Nat) (st : List Value)
    (flow : Flow) (w : Walker) (m : Machine) : Prop :=
  flow = .next ∧ m.Mirrors D d a ip st w

/-- The value that the walker comes to is pushed onto `st`. -/
abbrev Pushes (D : List FunctionDecl) (d : Distances) (a : Activation) (ip : Nat) (st : List Value) :
    EStateM.Result Interrupt Walker Value → EStateM.Result Fault Machine Unit → Prop :=
  Matches (fun x w m => m.Mirrors D d a ip (x :: st) w) (Machine.Struck D d a st)

namespace Matches

open Machine

variable {span : Span} {v : Value}

/-- What the walker makes of the result needs no instruction. -/
theorem map {α β : Type} {P : α → Walker → Machine → Prop} {Q : β → Walker → Machine → Prop}
    {F : Walker → Machine → Prop} {act : Walk α} {f : α → β} {r : EStateM.Result Fault Machine Unit}
    (h : Matches P F (act w) r) (hQ : ∀ y w m, P y w m → Q (f y) w m) :
    Matches Q F ((act >>= fun y => pure (f y)) w) r := by
  rw [Outcome.bind_apply]
  generalize act w = x at h
  cases h with
  | ok hp => exact .ok (hQ _ _ _ hp)
  | fault hf => exact .fault hf

section Variables

/-- Reading a variable. -/
theorem lookup (h : m.Mirrors D d a ip st w) (ident : Ident) :
    Pushes D d a ip st (Walk.lookup ident w)
      (Exec.execute o ⟨.lookup ident.name (d.get? ident.id), span⟩ m) := by
  rw [Walk.lookup_apply, Exec.execute_lookup, h.lookup, Walker.distance?, h.distances]
  cases w.lookup ident.name (d.get? ident.id) with
  | ok v => exact .ok (h.push v)
  | error c => exact .fault (h.struck (List.suffix_refl _))

/-- Changing a variable. -/
theorem assign (h : m.Mirrors D d a ip (v :: st) w) (target : Ident) :
    Matches (fun _ w' m' => m'.Mirrors D d a ip (v :: st) w') (Machine.Struck D d a st)
      (Walk.assign target v w) (Exec.execute o ⟨.assign target.name (d.get? target.id), span⟩ m) := by
  rw [Walk.assign_apply, Exec.execute_assign h.stack, h.holder, Walker.distance?, h.distances]
  cases w.holder target.name (d.get? target.id) with
  | ok e =>
    rw [h.store]
    exact .ok (h.inStore rfl)
  | error c => exact .fault (h.struck (List.suffix_cons _ _))

/-- Declaring a variable. -/
theorem declareVar (h : m.Mirrors D d a ip (v :: st) w) (name : String) :
    Matches (Proceeds D d a ip st) (Machine.Struck D d a st)
      ((do
        Walk.onStore (Store.declare w.env name v)
        return Flow.next : Walk Flow) w)
      (Exec.execute o ⟨.declareVar name, span⟩ m) := by
  have hm := h.setStack st
  have hbound : m.world.store.hasLocal m.env name = w.world.store.hasLocal w.env name := by
    rw [h.store, h.env]
  have hdefine : m.world.store.define m.env name v = w.world.store.define w.env name v := by
    rw [h.store, h.env]
  rw [Exec.execute_declareVar h.stack, hbound, hdefine, Outcome.bind_apply, Walk.onStore_apply,
    Store.declare_apply]
  cases w.world.store.hasLocal w.env name with
  | true => exact .fault (hm.struck (List.suffix_refl _))
  | false => exact .ok ⟨rfl, hm.inStore rfl⟩

end Variables

section Operators

/-- An operator with one operand. -/
theorem unary (h : m.Mirrors D d a ip (v :: st) w) (op : UnaryOp) :
    Pushes D d a ip st (Walk.lift (w.world.store.unary op v) w)
      (Exec.execute o ⟨.unary op, span⟩ m) := by
  rw [Exec.execute_unary h.stack, h.store]
  cases w.world.store.unary op v with
  | ok x => exact .ok (h.setStack (x :: st))
  | error c => exact .fault ((h.setStack st).struck (List.suffix_refl _))

/-- One with two. -/
theorem binary {l r : Value} (h : m.Mirrors D d a ip (r :: l :: st) w) (op : BinaryOp) :
    Pushes D d a ip st (Walk.lift (w.world.store.binary op l r) w)
      (Exec.execute o ⟨.binary op, span⟩ m) := by
  rw [Exec.execute_binary h.stack, h.store]
  cases w.world.store.binary op l r with
  | ok x => exact .ok (h.setStack (x :: st))
  | error c => exact .fault ((h.setStack st).struck (List.suffix_refl _))

theorem logical {l r : Value} (h : m.Mirrors D d a ip (r :: l :: st) w) (op : LogicalOp) :
    Pushes D d a ip st (Walk.lift (w.world.store.logical op l r) w)
      (Exec.execute o ⟨.logical op, span⟩ m) := by
  rw [Exec.execute_logical h.stack, h.store]
  cases w.world.store.logical op l r with
  | ok x => exact .ok (h.setStack (x :: st))
  | error c => exact .fault ((h.setStack st).struck (List.suffix_refl _))

/-- A condition: the machine goes on, or jumps if it is false, and keeps the value. -/
theorem condition (h : m.Mirrors D d a ip (v :: st) w) (target : Nat) :
    Matches (fun b w' m' => w' = w ∧ m'.Mirrors D d a (if b then ip else target) (v :: st) w)
      (Machine.Struck D d a st) (Walk.lift (w.world.store.truth v) w)
      (Exec.execute o ⟨.jumpIfFalse target, span⟩ m) := by
  rw [Exec.execute_jumpIfFalse h.stack, h.store]
  cases w.world.store.truth v with
  | error c => exact .fault (h.struck (List.suffix_cons _ _))
  | ok b =>
    cases b with
    | true => exact .ok ⟨rfl, h⟩
    | false => exact .ok ⟨rfl, h.jump target⟩

/-- An assertion. -/
theorem assert (h : m.Mirrors D d a ip (v :: st) w) (message : Option String) :
    Matches (Proceeds D d a ip st) (Machine.Struck D d a st)
      ((do
        if ← Walk.lift (w.world.store.truth v) then return Flow.next
        else Walk.fail (.assertionFailed message) : Walk Flow) w)
      (Exec.execute o ⟨.assert message, span⟩ m) := by
  rw [Exec.execute_assert h.stack, h.store]
  cases w.world.store.truth v with
  | error c => exact .fault ((h.setStack st).struck (List.suffix_refl _))
  | ok b =>
    cases b with
    | true => exact .ok ⟨rfl, h.setStack st⟩
    | false => exact .fault ((h.setStack st).struck (List.suffix_refl _))

end Operators

section Members

/-- What was found in an instance is taken. -/
theorem take (h : m.Mirrors D d a ip st' w) (found : Member) :
    Machine.Mirrors D d a ip ((w.world.store.take found).1 :: st) (w.setStore (w.world.store.take found).2)
      ({ m with stack := (m.world.store.take found).1 :: st }.setStore
        (m.world.store.take found).2) := by
  rw [h.store]
  refine (h.setStack _).inStore ?_
  cases found with
  | value v => rfl
  | method c i => rfl

/-- Reading a field or a method. -/
theorem member (h : m.Mirrors D d a ip (v :: st) w) (name : String) :
    Pushes D d a ip st (Walk.member v name w) (Exec.execute o ⟨.getField name, span⟩ m) := by
  have hstruck := (h.setStack st).struck (List.suffix_refl st)
  by_cases hv : ∃ r, v = .object r
  · obtain ⟨r, rfl⟩ := hv
    have hfind : m.world.store.findMember r name = w.world.store.findMember r name := by
      rw [h.store]
    rw [Walk.member_apply, Exec.execute_getField h.stack, hfind]
    cases w.world.store.findMember r name with
    | ok found => exact .ok (take h found)
    | error c => exact .fault hstruck
  · have hv : ∀ r, v ≠ .object r := fun r hr => hv ⟨r, hr⟩
    rw [Walk.member_other hv, Exec.execute_getField_other h.stack hv, h.store]
    exact .fault hstruck

/-- Writing a field. -/
theorem setField {r : InstanceRef} (h : m.Mirrors D d a ip (v :: .object r :: st) w) (name : String) :
    Pushes D d a ip st ((do
        Walk.modifyStore (·.setField r name v)
        return v : Walk Value) w)
      (Exec.execute o ⟨.setField name, span⟩ m) := by
  rw [Exec.execute_setField h.stack, h.store]
  exact .ok ((h.setStack _).inStore rfl)

/-- A method of the superclass. -/
theorem superMethod (h : m.Mirrors D d a ip st w) {ident : Ident} {n : Nat}
    (hn : d.get? ident.id = some n) (name : String) :
    Pushes D d a ip st (Walk.superMethod ident name w)
      (Exec.execute o ⟨.getSuper name n, span⟩ m) := by
  have hd : w.distance? ident = some n := by rw [Walker.distance?, h.distances, hn]
  have hfind : m.world.store.findSuper m.env n name = w.world.store.findSuper w.env n name := by
    rw [h.store, h.env]
  rw [Walk.superMethod_apply hd, Exec.execute_getSuper, hfind, h.stack]
  cases w.world.store.findSuper w.env n name with
  | ok found => exact .ok (take h found)
  | error c => exact .fault (h.struck (List.suffix_refl _))

end Members

section Declarations

/-- Declaring a function. -/
theorem function (h : m.Mirrors D d a ip st w) (decl : FunctionDecl) :
    Matches (Proceeds D d a ip st) (Machine.Struck D d a st)
      ((do
        Walk.define w.env decl.name (.callable (.closure { decl, env := w.env, isInit := false }))
        return Flow.next : Walk Flow) w)
      (Exec.execute o ⟨.function decl, span⟩ m) := by
  rw [Exec.execute_function, h.store, h.env]
  exact .ok ⟨rfl, h.inStore rfl⟩

/-- What a class statement does once it has its superclass. -/
theorem declareClass (superclass : Option Value) (name : String) (methods : List FunctionDecl)
    (h : m.Mirrors D d a ip (match superclass with
      | some x => .bool true :: x :: st
      | none => .bool false :: st) w) :
    Matches (Proceeds D d a ip st) (Machine.Struck D d a st)
      ((do
        Walk.onStore (Store.declareClass w.env name superclass methods)
        return Flow.next : Walk Flow) w)
      (Exec.execute o ⟨.class name methods, span⟩ m) := by
  have hm := h.setStack st
  have hdeclare : Store.declareClass m.env name superclass methods m.world.store
      = Store.declareClass w.env name superclass methods w.world.store := by
    rw [h.store, h.env]
  -- one that fails has left the store as it was, in both executors
  have hends : Matches (Proceeds D d a ip st) (Machine.Struck D d a st)
      ((do
        Walk.onStore (Store.declareClass w.env name superclass methods)
        return Flow.next : Walk Flow) w)
      (Exec.onStore (Store.declareClass m.env name superclass methods) { m with stack := st }) := by
    rw [Outcome.bind_apply, Walk.onStore_apply, Exec.onStore_apply, hdeclare]
    cases hs : Store.declareClass w.env name superclass methods w.world.store with
    | ok u s => exact .ok ⟨rfl, hm.setStore (h.named.declareClass hs)⟩
    | error c s =>
      obtain rfl := Store.declareClass_atomic _ _ _ _ hs
      exact .fault ((hm.setStore h.named).struck (List.suffix_refl st))
  cases superclass with
  | none =>
    rw [Exec.execute_class h.stack]
    exact hends
  | some x =>
    rw [Exec.execute_subclass h.stack]
    exact hends

end Declarations

/-- A native. -/
theorem native (ho : o.TameHost) (hb : o.BlindHost) (h : m.Mirrors D d a ip st w) (f : Native)
    (args : List Value) :
    Pushes D d a ip st (Walk.native o f args w)
      (Exec.call o (.callable (.native f)) args span m) := by
  obtain ⟨dump, hworld⟩ := h.world
  have hmethods := (NativeM.call_spares ho f args w.world).methods
  unfold Walk.native
  rw [Exec.native_apply, hworld, NativeM.call_withDump _ _ hb]
  cases hc : NativeM.call o f args w.world with
  | ok v world =>
    rw [hc] at hmethods
    refine .ok ?_
    rw [h.stack]
    exact { h with
      stack := rfl
      world := ⟨dump, rfl⟩
      coherent := ⟨h.coherent.distances, h.coherent.chunks⟩
      named := h.named.of_methods hmethods }
  | error c world =>
    rw [hc] at hmethods
    have hm : Machine.Shadows D d a ip st { w with world := world }
        { m with world := world.withDump dump } :=
      { h with
        world := ⟨dump, rfl⟩
        coherent := ⟨h.coherent.distances, h.coherent.chunks⟩
        named := h.named.of_methods hmethods }
    exact .fault (hm.struck (List.suffix_refl _))

/-- A list is made by a native of its own. -/
theorem makeList (h : m.Mirrors D d a ip st w) (args : List Value) :
    Pushes D d a ip st ((do return Value.list (← Walk.update (·.newList args.toArray)) : Walk Value) w)
      (Exec.call o .listConstructor args span m) := by
  obtain ⟨dump, hworld⟩ := h.world
  have hcall : Exec.call o .listConstructor args span m
      = .ok () ({ m with stack := .list m.world.store.lists.size :: m.stack }.setStore
          (m.world.store.newList args.toArray).2) := rfl
  rw [hcall, h.store, h.stack]
  exact .ok ((h.setStack _).inStore rfl)

end Matches

end Eleu

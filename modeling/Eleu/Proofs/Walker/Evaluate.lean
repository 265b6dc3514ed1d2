import Eleu.Proofs.Outcome
import Eleu.Proofs.Store.Functions
import Eleu.Walker.Eval

/-! # What each part of the walker does

    One equation for each primitive of the walker: its outcome on a given state. -/

namespace Eleu

namespace Walker

/-- The walker with another store. -/
def setStore (w : Walker) (s : Store) : Walker := { w with world := { w.world with store := s } }

/-- The value of a variable: of a local one by its distance, else of the global one. -/
def lookup (w : Walker) (name : String) : Option Nat → Except Cause Value
  | some d => w.world.store.getAt w.env name d
  | none => w.world.store.get w.globals name

/-- The environment that holds a variable, found in the same way. -/
def holder (w : Walker) (name : String) : Option Nat → Except Cause EnvRef
  | some d => w.world.store.holderAt w.env name d
  | none => w.world.store.holder w.globals name

/-- The distance of a reference. -/
def distance? (w : Walker) (ident : Ident) : Option Nat := w.distances.get? ident.id

/-- The walker inside a new scope. -/
def inScope (w : Walker) : Walker :=
  { w.setStore (w.world.store.newEnv (some w.env)).2 with env := w.world.store.envs.size }

/-- The initialiser `m` of a new instance of the class `q`, and the store with both. -/
def bound (w : Walker) (q : ClassRef) (m : Closure) : Closure × Store :=
  (w.world.store.newInstance q).2.bind m w.world.store.instances.size

/-- The walker at the start of the body of a function that is called at `span`. -/
def inBody (w : Walker) (c : Closure) (args : List Value) (span : Span) : Walker :=
  { w.setStore (w.world.store.callStore c args) with
    env := w.world.store.envs.size
    calls := ⟨c.decl.name, span⟩ :: w.calls }

end Walker

namespace Walk

open Outcome

variable {o : Options} {w : Walker} {α β : Type}

theorem lift_ok (a : α) : (lift (.ok a) : Walk α) w = .ok a w := rfl

/-- What is read from the store. -/
theorem store_bind (f : Store → Walk α) : (store >>= f) w = f w.world.store w := rfl

theorem update_bind (f : Store → α × Store) (g : α → Walk β) :
    (update f >>= g) w = g (f w.world.store).1 (w.setStore (f w.world.store).2) := rfl

/-- What was done to the store is there however it ended. -/
theorem onStore_apply (act : StoreM α) :
    onStore act w =
      match act w.world.store with
      | .ok a s => .ok a (w.setStore s)
      | .error c s => .error (.fault { cause := c }) (w.setStore s) := rfl

theorem get_bind (f : Walker → Walk α) : (get >>= f) w = f w w := rfl

theorem lookup_apply (ident : Ident) :
    lookup ident w =
      match w.lookup ident.name (w.distance? ident) with
      | .ok v => .ok v w
      | .error c => .error (.fault { cause := c }) w := by
  unfold lookup
  rw [get_bind]
  show (match w.distance? ident with
    | some d => lift (w.world.store.getAt w.env ident.name d)
    | none => lift (w.world.store.get w.globals ident.name) : Walk Value) w = _
  cases w.distance? ident with
  | some d =>
    show lift (w.world.store.getAt w.env ident.name d) w = _
    rw [Walker.lookup]
    cases w.world.store.getAt w.env ident.name d <;> rfl
  | none =>
    show lift (w.world.store.get w.globals ident.name) w = _
    rw [Walker.lookup]
    cases w.world.store.get w.globals ident.name <;> rfl

theorem assign_apply (ident : Ident) (v : Value) :
    assign ident v w =
      match w.holder ident.name (w.distance? ident) with
      | .ok e => .ok () (w.setStore (w.world.store.define e ident.name v))
      | .error c => .error (.fault { cause := c }) w := by
  unfold assign
  rw [get_bind]
  show (match w.distance? ident with
    | some d => onStore (Store.assignAt w.env ident.name v d)
    | none => onStore (Store.assign w.globals ident.name v) : Walk Unit) w = _
  cases w.distance? ident with
  | some d =>
    show onStore (Store.assignAt w.env ident.name v d) w = _
    rw [onStore_apply, Store.assignAt_apply, Walker.holder]
    cases w.world.store.holderAt w.env ident.name d <;> rfl
  | none =>
    show onStore (Store.assign w.globals ident.name v) w = _
    rw [onStore_apply, Store.assign_apply, Walker.holder]
    cases w.world.store.holder w.globals ident.name <;> rfl

theorem superMethod_apply {ident : Ident} {name : String} {d : Nat} (h : w.distance? ident = some d) :
    superMethod ident name w =
      match w.world.store.findSuper w.env d name with
      | .ok found => .ok (w.world.store.take found).1 (w.setStore (w.world.store.take found).2)
      | .error c => .error (.fault { cause := c }) w := by
  have h : w.distances.get? ident.id = some d := h
  simp only [superMethod, get_bind, h]
  cases hm : w.world.store.findSuper w.env d name with
  | ok found => rfl
  | error c => rfl

theorem member_apply (r : InstanceRef) (name : String) :
    member (.object r) name w =
      match w.world.store.findMember r name with
      | .ok found => .ok (w.world.store.take found).1 (w.setStore (w.world.store.take found).2)
      | .error c => .error (.fault { cause := c }) w := by
  simp only [member, store_bind]
  cases w.world.store.findMember r name <;> rfl

theorem member_other {v : Value} (h : ∀ r, v ≠ .object r) (name : String) :
    member v name w = .error (.fault { cause := .notInstance (w.world.store.repr v) }) w := by
  cases v with
  | object r => exact absurd rfl (h r)
  | nil | bool | number | string | list | callable => rfl

theorem condition_apply (v : Value) (span : Span) :
    condition v span w =
      match w.world.store.truth v with
      | .ok b => .ok b w
      | .error c => .error (.fault { cause := c, span := some span }) w := by
  simp only [condition, store_bind]
  unfold located
  cases w.world.store.truth v <;> rfl

theorem condition_ok {x : Value} {b : Bool} (span : Span) (h : w.world.store.truth x = .ok b) :
    condition x span w = .ok b w := by rw [condition_apply, h]

theorem located_lift_ok {x : Except Cause α} {a : α} (span : Span) (h : x = .ok a) :
    located span (lift x) w = .ok a w := by
  rw [h]
  rfl

theorem poll_apply (span : Span) :
    poll o span w =
      if (w.world.poll o).1 then
        .error (.fault { cause := .cancelled, span := some span })
          { w with world := (w.world.poll o).2 }
      else .ok () { w with world := (w.world.poll o).2 } := by
  show (if (w.world.poll o).1 then throw (.fault { cause := .cancelled, span := some span })
    else pure () : Walk Unit) { w with world := (w.world.poll o).2 } = _
  split <;> rfl

/-! ## Calls -/

section Calls

variable {n : Nat} {args : List Value} {span : Span}

theorem call_error {c : Callable} {cause : Cause}
    (h : w.world.store.checkArity c args.length = .error cause) :
    call o (n + 1) (.callable c) args span w = .error (.fault { cause }) w := by
  show (lift (w.world.store.checkArity c args.length) >>= _) w = _
  rw [h]
  rfl

theorem call_native (f : Native) :
    call o (n + 1) (.callable (.native f)) args span w = native o f args w := rfl

theorem call_closure {c : Closure} (h : w.world.store.checkArity (.closure c) args.length = .ok ()) :
    call o (n + 1) (.callable (.closure c)) args span w = closure o n c args span w := by
  show (lift (w.world.store.checkArity (.closure c) args.length) >>=
    fun _ => closure o n c args span) w = _
  rw [h]
  rfl

/-- A class without initialiser. -/
theorem call_class {q : ClassRef} (h : w.world.store.checkArity (.classRef q) args.length = .ok ())
    (hm : (w.world.store.newInstance q).2.findMethod? q "init" = none) :
    call o (n + 1) (.callable (.classRef q)) args span w
      = .ok (.object w.world.store.instances.size) (w.setStore (w.world.store.newInstance q).2) := by
  show (lift (w.world.store.checkArity (.classRef q) args.length) >>= _) w = _
  rw [h, bind_apply, lift_ok]
  dsimp only
  rw [update_bind, store_bind]
  simp only [Walker.setStore, hm]
  rfl

/-- A class calls its initialiser, and gives the new instance. -/
theorem call_init {q : ClassRef} {m : Closure}
    (h : w.world.store.checkArity (.classRef q) args.length = .ok ())
    (hm : (w.world.store.newInstance q).2.findMethod? q "init" = some m) :
    call o (n + 1) (.callable (.classRef q)) args span w
      = (closure o n (w.bound q m).1 args span >>= fun _ =>
          pure (.object w.world.store.instances.size)) (w.setStore (w.bound q m).2) := by
  show (lift (w.world.store.checkArity (.classRef q) args.length) >>= _) w = _
  rw [h, bind_apply, lift_ok]
  dsimp only
  rw [update_bind, store_bind]
  simp only [Walker.setStore, hm]
  rfl

theorem call_other {v : Value} (h : ∀ c, v ≠ .callable c) :
    call o (n + 1) v args span w
      = .error (.fault { cause := .notCallable (w.world.store.repr v) }) w := by
  cases v with
  | callable c => exact absurd rfl (h c)
  | nil | bool | number | string | list | object => rfl

/-- Too many calls are active already. -/
theorem closure_full {c : Closure} (h : o.maxCallDepth ≤ w.calls.length) :
    closure o (n + 1) c args span w = .error (.fault { cause := .tooManyCalls }) w := by
  rw [closure, get_bind, if_pos h]
  rfl

theorem closure_body {c : Closure} (h : w.calls.length < o.maxCallDepth) :
    closure o (n + 1) c args span w
      = (inCall ⟨c.decl.name, span⟩ (inEnv w.world.store.envs.size (items o n c.decl.body)) >>=
          callResult c) (w.setStore (w.world.store.callStore c args)) := by
  rw [closure, get_bind, if_neg (Nat.not_le_of_lt h)]
  rfl

end Calls

end Walk

end Eleu

import Eleu.Library.Natives
import Eleu.Proofs.Store.Functions

/-! # What operators and natives can give

    Operators and the natives of the library give values that are neither functions of the script
    nor classes, the element of a list apart, and fail only with errors of their own kind.
    `Cause.internal` marks the three causes that stand for machine states without meaning; none of
    them is ever the error of an operator or a native, and no static error is (`Cause.Dynamic`). -/

namespace Eleu

/-- The causes that stand for a machine state in which an instruction has no meaning. -/
def Cause.internal : Cause → Bool
  | .emptyStack _ | .noFrame _ | .noParentScope _ => true
  | _ => false

/-- A cause that does not stand for such a state. -/
def Cause.Sound (c : Cause) : Prop := c.internal = false

/-- A cause that a script can have while it runs: neither such a state nor a static error. -/
def Cause.Dynamic (c : Cause) : Prop := (c.internal || c.kind == .resolve) = false

theorem Cause.Dynamic.sound {c : Cause} (h : c.Dynamic) : c.Sound := (Bool.or_eq_false_iff.1 h).1

theorem Cause.Dynamic.kind_ne {c : Cause} (h : c.Dynamic) : c.kind ≠ .resolve :=
  ne_of_beq_false (Bool.or_eq_false_iff.1 h).2

/-- The value is no function of the script. -/
def Value.Plain (v : Value) : Prop := v.IfFunction fun _ => False

theorem Value.Inert.plain {v : Value} (h : v.Inert) : v.Plain := by
  match v, h with
  | .nil, _ | .bool _, _ | .number _, _ | .string _, _ | .list _, _ | .object _, _
  | .callable (.native _), _ => trivial

theorem Value.Plain.ifFunction {v : Value} (h : v.Plain) (P : Closure → Prop) : v.IfFunction P := by
  match v, h with
  | .nil, _ | .bool _, _ | .number _, _ | .string _, _ | .list _, _ | .object _, _
  | .callable (.native _), _ | .callable (.classRef _), _ => trivial

/-! ## Operators -/

theorem checkedNumber_inert (x : Float) (operation : Unit → String) :
    Yields (checkedNumber x operation) Value.Inert Cause.Dynamic := by
  unfold checkedNumber
  split
  · exact rfl
  · split
    · exact trivial
    · exact rfl

theorem Value.ofLiteral_inert (l : Literal) : Yields (Value.ofLiteral l) Value.Inert Cause.Dynamic := by
  unfold Value.ofLiteral
  split
  · exact trivial
  · exact trivial
  · exact trivial
  · split
    · exact trivial
    · exact rfl

namespace Store

variable (s : Store)

theorem truth_sound (v : Value) : Yields (s.truth v) (fun _ => True) Cause.Dynamic := by
  unfold truth
  split
  · exact trivial
  · exact rfl

theorem rounds_sound (v : Value) : Yields (s.rounds v) (fun _ => True) Cause.Dynamic := by
  unfold rounds
  dsimp only
  split
  · exact trivial
  · exact rfl

theorem unary_inert (op : UnaryOp) (v : Value) :
    Yields (s.unary op v) Value.Inert Cause.Dynamic := by
  unfold unary
  split
  · exact (s.truth_sound v).bind fun _ _ => trivial
  · exact checkedNumber_inert _ _
  · exact rfl

theorem logical_inert (op : LogicalOp) (l r : Value) :
    Yields (s.logical op l r) Value.Inert Cause.Dynamic :=
  (s.truth_sound l).bind fun _ _ => (s.truth_sound r).bind fun _ _ => trivial

theorem compare_sound (l r : Value) : Yields (compare l r) (fun _ => True) Cause.Dynamic := by
  unfold compare
  split
  · split
    · exact trivial
    · split <;> exact trivial
  · exact trivial
  · exact rfl

theorem add_inert (l r : Value) : Yields (s.add l r) Value.Inert Cause.Dynamic := by
  unfold add
  split
  · exact checkedNumber_inert _ _
  · exact trivial
  · exact trivial
  · exact trivial
  · exact rfl

theorem operands_sound (l r : Value) : Yields (s.operands l r) (fun _ => True) Cause.Dynamic := by
  unfold operands
  split
  · exact trivial
  · exact rfl
  · exact rfl

theorem arithmetic_inert (op : String) (f : Float → Float → Float) (l r : Value) :
    Yields (s.arithmetic op f l r) Value.Inert Cause.Dynamic :=
  (s.operands_sound l r).bind fun _ _ => checkedNumber_inert _ _

theorem division_inert (op : String) (f : Float → Float → Float) (l r : Value) :
    Yields (s.division op f l r) Value.Inert Cause.Dynamic := by
  refine (s.operands_sound l r).bind fun a _ => ?_
  dsimp only
  split
  · exact rfl
  · exact checkedNumber_inert _ _

/-- Operators give inert values. -/
theorem binary_inert (op : BinaryOp) (l r : Value) :
    Yields (s.binary op l r) Value.Inert Cause.Dynamic := by
  have hc : ∀ f : Ordering → Bool,
      Yields ((compare l r).map fun o => Value.bool (f o)) Value.Inert Cause.Dynamic :=
    fun f => Yields.map ((compare_sound l r).mono fun _ _ => trivial)
  cases op with
  | equal => exact trivial
  | notEqual => exact trivial
  | greater => exact hc _
  | greaterEqual => exact hc _
  | less => exact hc _
  | lessEqual => exact hc _
  | plus => exact s.add_inert l r
  | minus => exact s.arithmetic_inert _ _ l r
  | multiply => exact s.arithmetic_inert _ _ l r
  | divide => exact s.division_inert _ _ l r
  | modulo => exact s.division_inert _ _ l r

/-! ## Arguments of natives -/

theorem checkCount_sound (name : String) (args : List Value) (low high : Nat) :
    Yields (checkCount name args low high) (fun _ => True) Cause.Dynamic := by
  unfold checkCount
  split
  · exact rfl
  · exact trivial

/-- An argument of any kind is read or refused. -/
theorem argument_sound {α : Type} (read : Value → Option α) (what name : String) (args : List Value)
    (i : Nat) : Yields (s.argument read what name args i) (fun _ => True) Cause.Dynamic := by
  unfold argument
  split
  · exact trivial
  · exact rfl

theorem indexArgument_sound (name : String) (args : List Value) (i limit : Nat) :
    Yields (s.indexArgument name args i limit) (fun _ => True) Cause.Dynamic := by
  refine (s.argument_sound _ _ name args i).bind fun k _ => ?_
  split
  · split
    · exact trivial
    · exact rfl
  · exact rfl

theorem readNumber_sound (name text : String) :
    Yields (readNumber name text) (fun _ => True) Cause.Dynamic := by
  unfold readNumber
  split
  · exact trivial
  · exact rfl

/-! ## Natives that only look at their arguments -/

theorem mathNative_inert (f : MathFunction) (args : List Value) :
    Yields (s.mathNative f args) Value.Inert Cause.Dynamic :=
  (checkCount_sound f.name args 1 1).bind fun _ _ =>
    (s.argument_sound _ _ f.name args 0).bind fun _ _ => checkedNumber_inert _ _

theorem powNative_inert (args : List Value) :
    Yields (s.powNative args) Value.Inert Cause.Dynamic :=
  (checkCount_sound "pow" args 2 2).bind fun _ _ =>
    (s.argument_sound _ _ "pow" args 0).bind fun _ _ =>
      (s.argument_sound _ _ "pow" args 1).bind fun _ _ => checkedNumber_inert _ _

theorem toFixedNative_inert (args : List Value) :
    Yields (s.toFixedNative args) Value.Inert Cause.Dynamic := by
  refine (checkCount_sound "toFixed" args 2 2).bind fun _ _ =>
    (s.argument_sound _ _ "toFixed" args 0).bind fun _ _ =>
      (s.argument_sound _ _ "toFixed" args 1).bind fun k _ => ?_
  split
  · split
    · exact trivial
    · exact rfl
  · exact rfl

theorem parseNative_inert (name : String) (args : List Value) :
    Yields (s.parseNative name args) Value.Inert Cause.Dynamic :=
  (checkCount_sound name args 1 1).bind fun _ _ =>
    (s.argument_sound _ _ name args 0).bind fun _ _ =>
      (readNumber_sound name _).bind fun _ _ => trivial

theorem parseIntNative_inert (args : List Value) :
    Yields (s.parseIntNative args) Value.Inert Cause.Dynamic := by
  refine (checkCount_sound "parseInt" args 1 1).bind fun _ _ =>
    (s.argument_sound _ _ "parseInt" args 0).bind fun _ _ =>
      (readNumber_sound "parseInt" _).bind fun n _ => ?_
  split
  · exact rfl
  · exact trivial

theorem lengthNative_inert (args : List Value) :
    Yields (s.lengthNative args) Value.Inert Cause.Dynamic := by
  refine (checkCount_sound "len" args 1 1).bind fun _ _ => ?_
  split
  · exact trivial
  · exact trivial
  · exact rfl

theorem charAtNative_inert (args : List Value) :
    Yields (s.charAtNative args) Value.Inert Cause.Dynamic := by
  refine (checkCount_sound "charAt" args 2 2).bind fun _ _ =>
    (s.argument_sound _ _ "charAt" args 0).bind fun _ _ =>
      (s.indexArgument_sound "charAt" args 1 _).bind fun _ _ => ?_
  split
  · exact trivial
  · exact rfl

theorem substringNative_inert (args : List Value) :
    Yields (s.substringNative args) Value.Inert Cause.Dynamic := by
  refine (checkCount_sound "substr" args 2 3).bind fun _ _ =>
    (s.argument_sound _ _ "substr" args 0).bind fun _ _ =>
      (s.indexArgument_sound "substr" args 1 _).bind fun start _ => ?_
  have hlast : ∀ (cs : List Char) (length : Nat), Yields
      (if cs.length < start + length then
        .error (invalidArgument "substr" "range exceeds the string")
      else .ok (.string (String.ofList ((cs.drop start).take length))) : Except Cause Value)
      Value.Inert Cause.Dynamic := by
    intro cs length
    split
    · exact rfl
    · exact trivial
  dsimp only
  split
  · exact (s.indexArgument_sound "substr" args 2 _).bind fun length _ => hlast _ length
  · exact hlast _ _

theorem indexOfNative_inert (args : List Value) :
    Yields (s.indexOfNative args) Value.Inert Cause.Dynamic := by
  refine (checkCount_sound "indexOf" args 2 3).bind fun _ _ =>
    (s.argument_sound _ _ "indexOf" args 0).bind fun _ _ =>
      (s.argument_sound _ _ "indexOf" args 1).bind fun _ _ => ?_
  have hlast : ∀ i : Option Nat,
      Yields (.ok (position i) : Except Cause Value) Value.Inert Cause.Dynamic := by
    intro i
    cases i <;> exact trivial
  dsimp only
  split
  · exact (s.indexArgument_sound "indexOf" args 2 _).bind fun _ _ => hlast _
  · exact hlast _

theorem lastIndexOfNative_inert (args : List Value) :
    Yields (s.lastIndexOfNative args) Value.Inert Cause.Dynamic := by
  refine (checkCount_sound "lastIndexOf" args 2 3).bind fun _ _ =>
    (s.argument_sound _ _ "lastIndexOf" args 0).bind fun _ _ =>
      (s.argument_sound _ _ "lastIndexOf" args 1).bind fun _ _ => ?_
  have hlast : ∀ i : Option Nat,
      Yields (.ok (position i) : Except Cause Value) Value.Inert Cause.Dynamic := by
    intro i
    cases i <;> exact trivial
  dsimp only
  split
  · exact (s.indexArgument_sound "lastIndexOf" args 2 _).bind fun _ _ => hlast _
  · exact hlast _

theorem caseNative_inert (name : String) (f : List Char → List Char) (args : List Value) :
    Yields (s.caseNative name f args) Value.Inert Cause.Dynamic :=
  (checkCount_sound name args 1 1).bind fun _ _ =>
    (s.argument_sound _ _ name args 0).bind fun _ _ => trivial

/-- The one native of the library that can give a function: it was an element of a list. -/
theorem elementAtNative_yields (args : List Value) :
    Yields (s.elementAtNative args) (fun v => ∃ r, v ∈ s.list r) Cause.Dynamic := by
  refine (checkCount_sound "at" args 2 2).bind fun _ _ =>
    (s.argument_sound _ _ "at" args 0).bind fun r _ =>
      (s.indexArgument_sound "at" args 1 _).bind fun i _ => ?_
  split
  · next v hv => exact ⟨r, Array.mem_of_getElem? hv⟩
  · exact rfl

end Store

/-! ## Variables and members -/

namespace Store

variable {K : String → Prop} {L : StoreLaw K} {s : Store}

theorem Obeys.getAt (hs : s.Obeys L) (e : EnvRef) (name : String) (d : Nat) :
    Yields (s.getAt e name d) (fun v => v.Obeys L s) Cause.Dynamic := by
  unfold Store.getAt
  split
  · exact rfl
  · split
    · next v hv => exact hs.locals hv
    · exact rfl

theorem Obeys.get (hs : s.Obeys L) (e : EnvRef) (name : String) :
    Yields (s.get e name) (fun v => v.Obeys L s) Cause.Dynamic := by
  unfold Store.get
  split
  · next v hv =>
      obtain ⟨b, -, hb⟩ := Option.bind_eq_some_iff.1 hv
      exact hs.locals hb
  · exact rfl

theorem holderAt_sound (s : Store) (e : EnvRef) (name : String) (d : Nat) :
    Yields (s.holderAt e name d) (fun a => s.hasLocal a name = true) Cause.Dynamic := by
  unfold Store.holderAt
  split
  · exact rfl
  · split
    · next h => exact h
    · exact rfl

theorem hasLocal_of_binderWithin {name : String} {n : Nat} {e a : EnvRef}
    (h : s.binderWithin name n e = some a) : s.hasLocal a name = true := by
  induction n generalizing e with
  | zero => exact nomatch h
  | succ n ih =>
    unfold binderWithin at h
    split at h
    · next hlocal => exact Option.some.inj h ▸ hlocal
    · split at h
      · exact ih h
      · exact nomatch h

theorem holder_sound (s : Store) (e : EnvRef) (name : String) :
    Yields (s.holder e name) (fun a => s.hasLocal a name = true) Cause.Dynamic := by
  unfold Store.holder
  split
  · next h => exact hasLocal_of_binderWithin h
  · exact rfl

theorem declare_sound (s : Store) (e : EnvRef) (name : String) (v : Value) :
    Ends (declare e name v s) (fun _ t => s.hasLocal e name = false ∧ t = s.define e name v)
      (fun c t => c.Dynamic ∧ t = s) := by
  rw [declare_apply]
  split
  · exact ⟨rfl, rfl⟩
  · next h => exact ⟨eq_false_of_ne_true h, rfl⟩

theorem findMember_sound (s : Store) (r : InstanceRef) (name : String) :
    Yields (s.findMember r name) (fun _ => True) Cause.Dynamic := by
  unfold Store.findMember
  split
  · exact trivial
  · split
    · exact trivial
    · exact rfl

theorem getAt_sound (s : Store) (e : EnvRef) (name : String) (d : Nat) :
    Yields (s.getAt e name d) (fun _ => True) Cause.Dynamic := by
  unfold Store.getAt
  split
  · exact rfl
  · split
    · exact trivial
    · exact rfl

theorem findSuper_sound (s : Store) (e : EnvRef) (d : Nat) (name : String) :
    Yields (s.findSuper e d name) (fun _ => True) Cause.Dynamic := by
  refine (s.getAt_sound e "super" d).bind fun parent _ => ?_
  cases d with
  | zero => exact rfl
  | succ d =>
    refine (s.getAt_sound e "this" d).bind fun this _ => ?_
    dsimp only
    split
    · split
      · exact trivial
      · exact rfl
    · exact rfl

theorem superclassOf_sound (s : Store) (v : Option Value) :
    Yields (s.superclassOf v) (fun p => p.isSome = v.isSome) Cause.Dynamic := by
  unfold Store.superclassOf
  split
  · exact rfl
  · exact rfl
  · exact rfl

/-- A class statement that fails changes nothing. -/
theorem declareClass_sound (s : Store) (e : EnvRef) (name : String) (superclass : Option Value)
    (methods : List FunctionDecl) :
    Ends (declareClass e name superclass methods s) (fun _ _ => True) (fun c t => c.Dynamic ∧ t = s) := by
  have hsuper := s.superclassOf_sound superclass
  rw [declareClass_apply]
  cases hp : s.superclassOf superclass with
  | error c =>
    rw [hp] at hsuper
    exact ⟨hsuper, rfl⟩
  | ok p =>
    have hopen := s.openClass_ends e name p
    dsimp only
    cases hr : openClass e name p s with
    | ok r t => trivial
    | error c t =>
      rw [hr] at hopen
      obtain ⟨-, -, rfl, rfl | rfl⟩ := hopen
      · exact ⟨rfl, rfl⟩
      · exact ⟨rfl, rfl⟩

/-- The check passes only if the count is right. -/
theorem checkArity_sound (s : Store) (c : Callable) (n : Nat) :
    Yields (s.checkArity c n) (fun _ => ∀ k, s.arity? c = some k → k = n) Cause.Dynamic := by
  unfold Store.checkArity
  split
  · split
    · next expected hk heq => exact fun k hk' => (Option.some.inj (hk'.symm.trans hk)).trans heq
    · exact rfl
  · next hn => exact fun k hk => nomatch hn.symm.trans hk

/-- A function is called with as many arguments as it has parameters. -/
theorem length_params {s : Store} {c : Closure} {n : Nat}
    (h : s.checkArity (.closure c) n = .ok ()) : c.decl.params.length = n := by
  have hs := s.checkArity_sound (.closure c) n
  rw [h] at hs
  exact hs _ rfl

/-- So is the initialiser of a class. -/
theorem length_params_init {s : Store} {q : ClassRef} {m : Closure} {n : Nat}
    (h : s.checkArity (.classRef q) n = .ok ())
    (hm : (s.newInstance q).2.findMethod? q "init" = some m) : m.decl.params.length = n := by
  have hs := s.checkArity_sound (.classRef q) n
  rw [h] at hs
  rw [findMethod?_newInstance] at hm
  exact hs _ (by rw [Store.arity?, hm]; rfl)

end Store

end Eleu
